import NostrPubsub.Reputation.Limits

/-!
# Peer reputation does not depend on the order of arrival

The retained ratings are a selection of the valid ratings seen so far: for each rater and subject the
newest, of these the newest of each rater, and of these the newest of all, those of authorized raters
first (`Follows`). One event keeps it so, although ratings that were dropped are forgotten, because
putting one more element into a selection gives the selection of all (`select_insert`).

The graph is that of the retained ratings of authorized raters as soon as there was a reason to
project it (`Projects`).
-/

namespace NostrPubsub.Reputation

variable {π γ : Type}

/-! ## One rating -/

/-- A valid rating, with its key. -/
abbrev Entry (π : Type) := PeerRatingKey × StoredPeerRating π

/-- The ranks of valid ratings. -/
def Config.ranks (config : Config) (entries : List (Entry π)) : Finset Rank :=
  (entries.map fun entry => config.rank entry.1 entry.2).toFinset

/-- The ranks of the ratings to retain: for each rater and subject the newest, of these the newest of
each rater, and of these the newest of all, those of authorized raters first. -/
def Config.retained (config : Config) (entries : List (Entry π)) : Finset Rank :=
  select Rank.key PeerRatingKey.rater peerRatingMaxEntriesPerRater peerRatingMaxEntries
    (config.ranks entries)

/-- Valid ratings name their rater, are not too old, and have different ranks. -/
structure WellFormed (config : Config) (nowSecs : ℕ) (entries : List (Entry π)) : Prop where
  rater_eq : ∀ entry ∈ entries, entry.2.rating.rater = entry.1.rater
  time_valid : ∀ entry ∈ entries, ratingTimeIsValid entry.2.rating.createdAt nowSecs
  eq_of_rank_eq : ∀ entry ∈ entries, ∀ entry' ∈ entries,
    config.rank entry.1 entry.2 = config.rank entry'.1 entry'.2 → entry = entry'

theorem WellFormed.of_subset {config : Config} {nowSecs : ℕ} {entries entries' : List (Entry π)}
    (h : WellFormed config nowSecs entries) (hsub : entries' ⊆ entries) :
    WellFormed config nowSecs entries' where
  rater_eq entry hentry := h.rater_eq entry (hsub hentry)
  time_valid entry hentry := h.time_valid entry (hsub hentry)
  eq_of_rank_eq entry hentry entry' hentry' :=
    h.eq_of_rank_eq entry (hsub hentry) entry' (hsub hentry')

/-- The retained ratings are those to retain of the valid ones seen. -/
structure Follows (config : Config) (entries : List (Entry π)) (s : PeerReputation π γ) : Prop where
  config_eq : s.config = config
  lookup_iff : ∀ key stored, s.latest.lookup key = some stored ↔
    (key, stored) ∈ entries ∧ config.rank key stored ∈ config.retained entries

theorem mem_ranks {config : Config} {entries : List (Entry π)} {rank : Rank} :
    rank ∈ config.ranks entries ↔ ∃ key stored, (key, stored) ∈ entries ∧
      config.rank key stored = rank := by
  simp [Config.ranks]

theorem ranks_concat (config : Config) (entries : List (Entry π)) (key : PeerRatingKey)
    (stored : StoredPeerRating π) : config.ranks (entries ++ [(key, stored)])
      = insert (config.rank key stored) (config.ranks entries) := by
  ext rank
  simp [Config.ranks, eq_comm]

theorem Follows.ranksOf_eq {config : Config} {entries : List (Entry π)} {s : PeerReputation π γ}
    (h : Follows config entries s) : config.ranksOf s.latest = config.retained entries := by
  ext rank
  constructor
  · intro hrank
    obtain ⟨key, stored, hlookup, rfl⟩ := mem_valuesOf.mp hrank
    exact ((h.lookup_iff key stored).mp hlookup).2
  · intro hrank
    obtain ⟨key, stored, hmem, rfl⟩ := mem_ranks.mp (select_subset _ hrank)
    exact rank_mem_ranksOf ((h.lookup_iff key stored).mpr ⟨hmem, hrank⟩)

theorem rank_le_rank_iff {config : Config} {key : PeerRatingKey}
    {stored existing : StoredPeerRating π} :
    config.rank key stored ≤ config.rank key existing ↔
      toLex (stored.rating.createdAt, stored.eventId)
        ≤ toLex (existing.rating.createdAt, existing.eventId) := by
  simp only [Config.rank, ageOrder, Prod.Lex.toLex_le_toLex, lt_irrefl, true_and, false_or, le_refl,
    and_true]
  rw [le_iff_lt_or_eq (a := stored.eventId)]

theorem ranksOf_insert (config : Config) (latest : Latest π) (key : PeerRatingKey)
    (stored : StoredPeerRating π) : config.ranksOf (latest.insert key stored)
      = insert (config.rank key stored)
          ((config.ranksOf latest).filter fun rank => rank.key ≠ key) := by
  ext rank
  rw [Finset.mem_insert, Finset.mem_filter, mem_valuesOf, mem_valuesOf]
  simp only [Finmap.lookup_insert_eq_some]
  constructor
  · rintro ⟨key', stored', ⟨rfl, rfl⟩ | ⟨hne, hlookup⟩, rfl⟩
    · exact .inl rfl
    · exact .inr ⟨⟨key', stored', hlookup, rfl⟩, hne⟩
  · rintro (rfl | ⟨⟨key', stored', hlookup, rfl⟩, hne⟩)
    · exact ⟨key, stored, .inl ⟨rfl, rfl⟩, rfl⟩
    · exact ⟨key', stored', .inr ⟨hne, hlookup⟩, rfl⟩

/-- The ratings exceed a limit after one of a rater was put in. -/
def LimitsExceeded (rater : String) (latest : Latest π) : Prop :=
  peerRatingMaxEntries < latest.size ∨
    peerRatingMaxEntriesPerRater < (latest.keys.filter fun key => key.rater = rater).card

/-- What putting a rating in does: the flag tells that the graph may change. -/
inductive Inserted (s : PeerReputation π γ) (key : PeerRatingKey) (stored : StoredPeerRating π) :
    Bool → PeerReputation π γ → Prop
  /-- There is one that is not older. -/
  | rejected {existing : StoredPeerRating π} (hlookup : s.latest.lookup key = some existing)
    (hle : s.config.rank key stored ≤ s.config.rank key existing) : Inserted s key stored false s
  /-- There is room. -/
  | kept {s' : PeerReputation π γ}
    (habove : ∀ existing, s.latest.lookup key = some existing →
      s.config.rank key existing < s.config.rank key stored)
    (hlimits : ¬ LimitsExceeded key.rater (s.latest.insert key stored))
    (hconfig : s'.config = s.config) (hgraph : s'.graph = s.graph)
    (hlatest : s'.latest = s.latest.insert key stored) :
    Inserted s key stored (s.config.raterIsAuthorized key.rater) s'
  /-- The oldest are dropped. -/
  | limited {s' : PeerReputation π γ}
    (habove : ∀ existing, s.latest.lookup key = some existing →
      s.config.rank key existing < s.config.rank key stored)
    (hlimits : LimitsExceeded key.rater (s.latest.insert key stored))
    (hconfig : s'.config = s.config) (hgraph : s'.graph = s.graph)
    (hlatest : s'.latest = enforceEntryLimitsWith s.config peerRatingMaxEntries
      peerRatingMaxEntriesPerRater (s.latest.insert key stored)) :
    Inserted s key stored true s'

theorem Inserted.graph_eq {s s' : PeerReputation π γ} {key : PeerRatingKey}
    {stored : StoredPeerRating π} {mayChange : Bool} (h : Inserted s key stored mayChange s') :
    s'.graph = s.graph := by
  cases h with
  | rejected => rfl
  | kept _ _ _ hgraph => exact hgraph
  | limited _ _ _ hgraph => exact hgraph

/-- The counts are those of the retained ratings. -/
def Counted (s : PeerReputation π γ) : Prop :=
  ∀ rater, (s.entriesByRater.lookup rater).getD 0
    = (s.latest.keys.filter fun key => key.rater = rater).card

/-- The counts after a rating was put in. -/
theorem Counted.insert {s : PeerReputation π γ} (h : Counted s) (key : PeerRatingKey)
    (stored : StoredPeerRating π) (rater : String) :
    ((if (s.latest.lookup key).isNone then countEntry s.entriesByRater key.rater
        else s.entriesByRater).lookup rater).getD 0
      = ((s.latest.insert key stored).keys.filter fun key => key.rater = rater).card := by
  rw [Finmap.keys_insert]
  by_cases hmem : key ∈ s.latest.keys
  · obtain ⟨existing, hlookup⟩ := Finmap.mem_iff.mp (Finmap.mem_keys.mp hmem)
    rw [hlookup, if_neg (by simp), h, Finset.insert_eq_of_mem hmem]
  · have hlookup : s.latest.lookup key = none :=
      Finmap.lookup_eq_none.mpr (mt Finmap.mem_keys.mpr hmem)
    rw [hlookup, if_pos (by simp), lookup_countEntry, h, Finset.filter_insert]
    by_cases hrater : key.rater = rater
    · rw [if_pos hrater, if_pos hrater, Finset.card_insert_of_notMem]
      exact fun hin => hmem (Finset.mem_filter.mp hin).1
    · rw [if_neg hrater, if_neg hrater, Nat.add_zero]

theorem insert_inserted {s : PeerReputation π γ} (h : Counted s) (key : PeerRatingKey)
    (stored : StoredPeerRating π) :
    Inserted s key stored (s.insert key stored).1.2 (s.insert key stored).2 ∧
      Counted (s.insert key stored).2 := by
  by_cases hold : (s.latest.lookup key).any fun existing =>
      decide (toLex (stored.rating.createdAt, stored.eventId)
        ≤ toLex (existing.rating.createdAt, existing.eventId))
  · have hinsert : s.insert key stored = ((false, false), s) := if_pos hold
    rw [hinsert]
    obtain ⟨existing, hlookup, hle⟩ := (Option.any_eq_true _ _).mp hold
    exact ⟨.rejected hlookup (rank_le_rank_iff.mpr (of_decide_eq_true hle)), h⟩
  · have habove : ∀ existing, s.latest.lookup key = some existing →
        s.config.rank key existing < s.config.rank key stored := by
      intro existing hlookup
      refine not_le.mp fun hle => hold ((Option.any_eq_true _ _).mpr ⟨existing, hlookup, ?_⟩)
      exact decide_eq_true (rank_le_rank_iff.mp hle)
    have hcount := h.insert key stored
    have hlimit : (peerRatingMaxEntries < (s.latest.insert key stored).size ∨
        peerRatingMaxEntriesPerRater < ((if (s.latest.lookup key).isNone then
          countEntry s.entriesByRater key.rater else s.entriesByRater).lookup key.rater).getD 0) ↔
        LimitsExceeded key.rater (s.latest.insert key stored) := by
      rw [hcount]
      exact Iff.rfl
    unfold PeerReputation.insert
    rw [if_neg hold]
    by_cases hlimits : LimitsExceeded key.rater (s.latest.insert key stored)
    · simp only [hlimit, hlimits, decide_true, if_true, Bool.or_true]
      exact ⟨.limited habove hlimits rfl rfl rfl, lookup_entryCounts _⟩
    · simp only [hlimit, hlimits, decide_false, Bool.false_eq_true, if_false, Finmap.lookup_insert,
        Option.any_some, decide_true, Bool.true_and, Bool.or_false]
      exact ⟨.kept habove hlimits rfl rfl rfl, hcount⟩

section Step

variable {config : Config} {nowSecs : ℕ} {entries : List (Entry π)} {s s' : PeerReputation π γ}
  {key : PeerRatingKey} {stored : StoredPeerRating π} {mayChange : Bool}

/-- The pairs of a rater and a subject are more than there are places for. -/
abbrev Config.Overflows (ranks : Finset Rank) : Prop :=
  Overflow Rank.key PeerRatingKey.rater peerRatingMaxEntriesPerRater peerRatingMaxEntries ranks

/-- The check of the limits looks at the rater of the new rating only, and at all ratings. -/
theorem limitsExceeded_iff {latest : Latest π} (hnot : ¬ Config.Overflows (config.ranksOf latest)) :
    LimitsExceeded key.rater (latest.insert key stored) ↔
      Config.Overflows (config.ranksOf (latest.insert key stored)) := by
  have hiff := overflow_replace_iff (x := config.rank key stored) (injOn_ranksOf config latest) hnot
  rw [key_rank, ← ranksOf_insert] at hiff
  rw [card_ranksOf, card_ranksOf_rater] at hiff
  exact hiff.symm

/-- What is retained after a rating was put in that is newer than the one there: the selection of
all, whether or not a limit was exceeded. -/
theorem Inserted.lookup_iff (hinserted : Inserted s key stored mayChange s')
    (hnot : ¬ Config.Overflows (s.config.ranksOf s.latest))
    (habove : ∀ existing, s.latest.lookup key = some existing →
      s.config.rank key existing < s.config.rank key stored)
    (key' : PeerRatingKey) (stored' : StoredPeerRating π) :
    s'.latest.lookup key' = some stored' ↔
      (s.latest.insert key stored).lookup key' = some stored' ∧
        s.config.rank key' stored' ∈ select Rank.key PeerRatingKey.rater
          peerRatingMaxEntriesPerRater peerRatingMaxEntries
          (s.config.ranksOf (s.latest.insert key stored)) := by
  cases hinserted with
  | rejected hlookup hle => exact absurd hle (not_le.mpr (habove _ hlookup))
  | kept _ hlimits _ _ hlatest =>
    rw [limitsExceeded_iff hnot] at hlimits
    rw [hlatest, select_eq_best hlimits, best_eq_self (injOn_ranksOf _ _)]
    exact ⟨fun hlookup => ⟨hlookup, rank_mem_ranksOf hlookup⟩, fun hlookup => hlookup.1⟩
  | limited _ hlimits _ _ hlatest => rw [hlatest, lookup_enforceEntryLimitsWith]

theorem Follows.not_overflows (h : Follows config entries s) :
    ¬ Config.Overflows (s.config.ranksOf s.latest) := by
  obtain rfl := h.config_eq
  rw [h.ranksOf_eq]
  exact not_overflow_select _

theorem Follows.limitsExceeded_iff (h : Follows config entries s) :
    LimitsExceeded key.rater (s.latest.insert key stored) ↔
      Config.Overflows (config.ranksOf (s.latest.insert key stored)) := by
  obtain rfl := h.config_eq
  exact Reputation.limitsExceeded_iff h.not_overflows

/-- Dropping from what is retained is dropping from everything that was seen. -/
theorem Follows.select_concat (h : Follows config entries s)
    (habove : ∀ existing, s.latest.lookup key = some existing →
      config.rank key existing < config.rank key stored) :
    select Rank.key PeerRatingKey.rater peerRatingMaxEntriesPerRater peerRatingMaxEntries
        (config.ranksOf (s.latest.insert key stored))
      = config.retained (entries ++ [(key, stored)]) := by
  have habove' : ∀ rank ∈ config.ranksOf s.latest, rank.key = Rank.key (config.rank key stored) →
      rank < config.rank key stored := by
    intro rank hrank hkey
    obtain ⟨key', existing, hlookup, rfl⟩ := mem_valuesOf.mp hrank
    obtain rfl : key' = key := hkey
    exact habove existing hlookup
  calc select Rank.key PeerRatingKey.rater peerRatingMaxEntriesPerRater peerRatingMaxEntries
        (config.ranksOf (s.latest.insert key stored))
      = select Rank.key PeerRatingKey.rater peerRatingMaxEntriesPerRater peerRatingMaxEntries
          (insert (config.rank key stored) (config.ranksOf s.latest)) := by
        rw [ranksOf_insert]
        exact select_replace habove'
    _ = config.retained (entries ++ [(key, stored)]) := by
        rw [h.ranksOf_eq, Config.retained, select_insert, Config.retained, ranks_concat]

/-- What is retained after a rating was put in. -/
theorem Follows.lookup_inserted (h : Follows config entries s)
    (hwf : WellFormed config nowSecs (entries ++ [(key, stored)]))
    (habove : ∀ existing, s.latest.lookup key = some existing →
      config.rank key existing < config.rank key stored)
    (key' : PeerRatingKey) (stored' : StoredPeerRating π) :
    ((s.latest.insert key stored).lookup key' = some stored' ∧
      config.rank key' stored' ∈ select Rank.key PeerRatingKey.rater peerRatingMaxEntriesPerRater
        peerRatingMaxEntries (config.ranksOf (s.latest.insert key stored))) ↔
      (key', stored') ∈ entries ++ [(key, stored)] ∧
        config.rank key' stored' ∈ config.retained (entries ++ [(key, stored)]) := by
  have hseen : ∀ key' stored', (s.latest.insert key stored).lookup key' = some stored' →
      (key', stored') ∈ entries ++ [(key, stored)] := by
    intro key' stored' hlookup
    rcases Finmap.lookup_insert_eq_some.mp hlookup with ⟨rfl, rfl⟩ | ⟨-, hlookup⟩
    · exact List.mem_append_right _ List.mem_cons_self
    · exact List.mem_append_left _ ((h.lookup_iff key' stored').mp hlookup).1
  rw [← h.select_concat habove]
  refine and_congr_left fun hrank => ⟨hseen key' stored', fun hmem => ?_⟩
  -- its rank is that of an inserted rating, and ranks are different
  obtain ⟨key'', stored'', hlookup, heq⟩ := mem_valuesOf.mp (select_subset _ hrank)
  have hsame := hwf.eq_of_rank_eq _ (hseen key'' stored'' hlookup) _ hmem heq
  cases hsame
  exact hlookup

/-- A rating that is not newer than the one retained changes nothing. -/
theorem Follows.rejected (h : Follows config entries s)
    (hwf : WellFormed config nowSecs (entries ++ [(key, stored)])) {existing : StoredPeerRating π}
    (hlookup : s.latest.lookup key = some existing)
    (hle : config.rank key stored ≤ config.rank key existing) :
    Follows config (entries ++ [(key, stored)]) s where
  config_eq := h.config_eq
  lookup_iff key' stored' := by
    have hretained : config.retained (entries ++ [(key, stored)]) = config.retained entries := by
      have hmem : config.rank key existing ∈ config.retained entries :=
        ((h.lookup_iff key existing).mp hlookup).2
      rw [Config.retained, ranks_concat, ← select_insert]
      exact (select_insert_of_le hmem
        ((key_rank config key existing).trans (key_rank config key stored).symm) hle).trans
          (select_select _)
    rw [h.lookup_iff, hretained]
    refine and_congr_left fun hrank => ⟨List.mem_append_left _, fun hmem => ?_⟩
    obtain ⟨key'', stored'', hin, heq⟩ := mem_ranks.mp (select_subset _ hrank)
    have hsame := hwf.eq_of_rank_eq _ (List.mem_append_left _ hin) _ hmem heq
    rwa [← hsame]

theorem Follows.inserted (h : Follows config entries s)
    (hwf : WellFormed config nowSecs (entries ++ [(key, stored)]))
    (hinserted : Inserted s key stored mayChange s') :
    Follows config (entries ++ [(key, stored)]) s' := by
  obtain rfl := h.config_eq
  cases hinserted with
  | rejected hlookup hle => exact h.rejected hwf hlookup hle
  | kept habove hlimits hconfig hgraph hlatest =>
    refine ⟨hconfig, fun key' stored' => ?_⟩
    rw [← h.lookup_inserted hwf habove]
    exact Inserted.lookup_iff (.kept habove hlimits hconfig hgraph hlatest) h.not_overflows habove
      key' stored'
  | limited habove hlimits hconfig hgraph hlatest =>
    refine ⟨hconfig, fun key' stored' => ?_⟩
    rw [← h.lookup_inserted hwf habove]
    exact Inserted.lookup_iff (.limited habove hlimits hconfig hgraph hlatest) h.not_overflows
      habove key' stored'

/-! ## The graph -/

/-- There was a reason to project the graph: a valid rating of an authorized rater, or too many. -/
def Config.Projected (config : Config) (entries : List (Entry π)) : Prop :=
  (∃ entry ∈ entries, config.raterIsAuthorized entry.1.rater = true) ∨
    Config.Overflows (config.ranks entries)

open PeerReputation (authorizedRatings)

theorem authorizedRatings_eq {latest : Latest π}
    (h : ∀ key stored, latest.lookup key = some stored → stored.rating.rater = key.rater) :
    authorizedRatings config latest =
      ((latest.keys.filter fun key => config.raterIsAuthorized key.rater = true).ascending.filterMap
        fun key => latest.lookup key).map StoredPeerRating.rating := by
  rw [authorizedRatings, List.filter_filterMap, Finset.ascending_filter, List.filterMap_filter]
  congr 1
  refine List.filterMap_congr fun key _ => ?_
  cases hlookup : latest.lookup key with
  | none => simp
  | some stored => simp [Option.filter, h key stored hlookup]

/-- Only the ratings of authorized raters are projected. -/
theorem authorizedRatings_congr {latest latest' : Latest π}
    (h : ∀ key stored, latest.lookup key = some stored → stored.rating.rater = key.rater)
    (h' : ∀ key stored, latest'.lookup key = some stored → stored.rating.rater = key.rater)
    (hagree : ∀ key, config.raterIsAuthorized key.rater = true →
      latest.lookup key = latest'.lookup key) :
    authorizedRatings config latest = authorizedRatings config latest' := by
  have hkeys : (latest.keys.filter fun key => config.raterIsAuthorized key.rater = true)
      = latest'.keys.filter fun key => config.raterIsAuthorized key.rater = true := by
    ext key
    rw [Finset.mem_filter, Finset.mem_filter, Finmap.mem_keys, Finmap.mem_keys]
    refine and_congr_left fun hauthorized => ?_
    rw [Finmap.mem_iff, Finmap.mem_iff, hagree key hauthorized]
  rw [authorizedRatings_eq h, authorizedRatings_eq h', hkeys]
  congr 1
  refine List.filterMap_congr fun key hkey => hagree key ?_
  exact (Finset.mem_filter.mp (Finset.mem_ascending.mp hkey)).2

/-- A rating that does not say that the graph may change leaves the projected ratings as they
were. -/
theorem Inserted.authorizedRatings_eq (hinserted : Inserted s key stored false s')
    (hrater : ∀ key stored, s.latest.lookup key = some stored → stored.rating.rater = key.rater)
    (hrater' : ∀ key stored, s'.latest.lookup key = some stored → stored.rating.rater = key.rater) :
    authorizedRatings s.config s'.latest = authorizedRatings s.config s.latest := by
  generalize hflag : false = mayChange at hinserted
  cases hinserted with
  | rejected hlookup hle => rfl
  | kept habove hlimits hconfig hgraph hlatest =>
    refine authorizedRatings_congr hrater' hrater fun key' hauthorized => ?_
    have hne : key' ≠ key := by
      rintro rfl
      exact Bool.false_ne_true (hflag.trans hauthorized)
    rw [hlatest, Finmap.lookup_insert_of_ne _ hne]
  | limited habove hlimits hconfig hgraph hlatest => cases hflag

theorem Follows.rater_eq (h : Follows config entries s) (hwf : WellFormed config nowSecs entries)
    {key : PeerRatingKey} {stored : StoredPeerRating π} (hlookup : s.latest.lookup key = some stored) :
    stored.rating.rater = key.rater :=
  hwf.rater_eq _ ((h.lookup_iff key stored).mp hlookup).1

theorem Config.Projected.concat (h : config.Projected entries) (entry : Entry π) :
    config.Projected (entries ++ [entry]) := by
  rcases h with ⟨authorized, hmem, hauthorized⟩ | hover
  · exact .inl ⟨authorized, List.mem_append_left _ hmem, hauthorized⟩
  · refine .inr (hover.mono ?_)
    rw [ranks_concat]
    exact Finset.subset_insert _ _

/-- A rating is a reason to project the graph if it says so. -/
theorem Follows.projected (h : Follows config entries s)
    (hinserted : Inserted s key stored true s') : config.Projected (entries ++ [(key, stored)]) := by
  obtain rfl := h.config_eq
  generalize hflag : true = mayChange at hinserted
  cases hinserted with
  | rejected hlookup hle => cases hflag
  | kept habove hlimits hconfig hgraph hlatest =>
    exact .inl ⟨(key, stored), List.mem_append_right _ List.mem_cons_self, hflag.symm⟩
  | limited habove hlimits hconfig hgraph hlatest =>
    refine .inr ((h.limitsExceeded_iff.mp hlimits).mono ?_)
    rw [ranksOf_insert, h.ranksOf_eq, ranks_concat]
    exact Finset.insert_subset_insert _ ((Finset.filter_subset _ _).trans (select_subset _))

/-- A rating that does not say so is none, and leaves the projected ratings as they were. -/
theorem Follows.unprojected (h : Follows config entries s)
    (hwf : WellFormed config nowSecs (entries ++ [(key, stored)]))
    (hinserted : Inserted s key stored false s') :
    (config.Projected (entries ++ [(key, stored)]) → config.Projected entries) ∧
      authorizedRatings config s'.latest = authorizedRatings config s.latest := by
  obtain rfl := h.config_eq
  have h' := h.inserted hwf hinserted
  refine ⟨?_, hinserted.authorizedRatings_eq
    (fun _ _ => h.rater_eq (hwf.of_subset fun _ => List.mem_append_left _))
    (fun _ _ => h'.rater_eq hwf)⟩
  generalize hflag : false = mayChange at hinserted
  cases hinserted with
  | rejected hlookup hle =>
    have hmem := ((h.lookup_iff _ _).mp hlookup).1
    rintro (⟨entry, hentry, hauthorized⟩ | hover)
    · rcases List.mem_append.mp hentry with hentry | hentry
      · exact .inl ⟨entry, hentry, hauthorized⟩
      · obtain rfl := List.mem_singleton.mp hentry
        exact .inl ⟨_, hmem, hauthorized⟩
    · refine .inr ((overflow_congr ?_).mp hover)
      rw [ranks_concat, Finset.image_insert, key_rank]
      exact Finset.insert_eq_of_mem
        (Finset.mem_image.mpr ⟨_, mem_ranks.mpr ⟨_, _, hmem, rfl⟩, rfl⟩)
  | kept habove hlimits hconfig hgraph hlatest =>
    rintro (⟨entry, hentry, hauthorized⟩ | hover)
    · rcases List.mem_append.mp hentry with hentry | hentry
      · exact .inl ⟨entry, hentry, hauthorized⟩
      · obtain rfl := List.mem_singleton.mp hentry
        exact absurd (hflag.trans hauthorized) Bool.false_ne_true
    · by_contra hnone
      -- nothing was dropped before, so that all pairs that occur are retained
      have hbefore : ¬ Config.Overflows (s.config.ranks entries) := fun h => hnone (.inr h)
      rw [h.limitsExceeded_iff] at hlimits
      refine hlimits ((overflow_congr ?_).mp hover)
      rw [image_ranksOf, Finmap.keys_insert, ranks_concat, Finset.image_insert, key_rank,
        ← image_ranksOf s.config, h.ranksOf_eq, Config.retained, select_eq_best hbefore,
        image_best]
  | limited habove hlimits hconfig hgraph hlatest => cases hflag

end Step

/-! ## Events -/

section Events

open PeerReputation (authorizedRatings parse)

variable {crates : SocialCrates π γ} {config : Config} {nowSecs : ℕ} {events : List Event}

/-- The ratings of the valid events. -/
def validEntries (crates : SocialCrates π γ) (config : Config) (nowSecs : ℕ) (events : List Event) :
    List (Entry π) :=
  events.filterMap fun event => parse crates config event nowSecs

/-- Two events with one id have one rating: `rating_from_event` verifies the id, a hash of what the
rating is read from. -/
def SocialCrates.IdsAreHashes (crates : SocialCrates π γ) : Prop :=
  ∀ event event' rating rating', crates.ratingFromEvent event = some rating →
    crates.ratingFromEvent event' = some rating' → event.id = event'.id → rating = rating'

theorem parse_eq_some {event : Event} {key : PeerRatingKey} {stored : StoredPeerRating π}
    (h : parse crates config event nowSecs = some (key, stored)) :
    ∃ rating rater subject, crates.ratingFromEvent event = some rating ∧
      crates.parsePublicKey rating.rater = some rater ∧
      crates.parsePublicKey rating.subject = some subject ∧
      ratingTimeIsValid rating.createdAt nowSecs = true ∧
      key = ⟨EventId.toHex rater, EventId.toHex subject, config.scope⟩ ∧
      stored = ⟨event.id.toHex, { rating with
        rater := EventId.toHex rater, subject := EventId.toHex subject }⟩ := by
  simp only [parse, guard, Option.bind_eq_bind, Option.bind_eq_some_iff] at h
  obtain ⟨_, -, rating, hrating, _, htime, _, -, rater, hrater, _, -, subject, hsubject, hentry⟩ := h
  refine ⟨rating, rater, subject, hrating, hrater, hsubject, ?_, ?_⟩
  · by_contra hinvalid
    rw [if_neg hinvalid] at htime
    cases htime
  · cases hentry
    exact ⟨rfl, rfl⟩

theorem validEntries_concat (events : List Event) (event : Event) :
    validEntries crates config nowSecs (events ++ [event])
      = validEntries crates config nowSecs events ++ (parse crates config event nowSecs).toList := by
  cases hparse : parse crates config event nowSecs <;>
    simp [validEntries, hparse]

theorem wellFormed_validEntries (hids : crates.IdsAreHashes) (config : Config) (nowSecs : ℕ)
    (events : List Event) : WellFormed config nowSecs (validEntries crates config nowSecs events) where
  rater_eq := by
    rintro ⟨key, stored⟩ hentry
    obtain ⟨event, -, hparse⟩ := List.mem_filterMap.mp hentry
    obtain ⟨rating, rater, subject, -, -, -, -, rfl, rfl⟩ := parse_eq_some hparse
    rfl
  time_valid := by
    rintro ⟨key, stored⟩ hentry
    obtain ⟨event, -, hparse⟩ := List.mem_filterMap.mp hentry
    obtain ⟨rating, rater, subject, -, -, -, htime, rfl, rfl⟩ := parse_eq_some hparse
    exact htime
  eq_of_rank_eq := by
    rintro ⟨key, stored⟩ hentry ⟨key', stored'⟩ hentry' hrank
    obtain ⟨event, -, hparse⟩ := List.mem_filterMap.mp hentry
    obtain ⟨event', -, hparse'⟩ := List.mem_filterMap.mp hentry'
    obtain ⟨rating, rater, subject, hrating, hrater, hsubject, -, rfl, rfl⟩ := parse_eq_some hparse
    obtain ⟨rating', rater', subject', hrating', hrater', hsubject', -, rfl, rfl⟩ :=
      parse_eq_some hparse'
    -- equal ranks have one event id, and one id one rating
    have hage := (Prod.mk.inj (toLex_inj.mp hrank)).2
    have hid := (Prod.mk.inj (toLex_inj.mp (Prod.mk.inj (toLex_inj.mp hage)).2)).1
    have hid' : event.id = event'.id := EventId.toHex_injective hid
    obtain rfl := hids event event' rating rating' hrating hrating' hid'
    rw [hrater] at hrater'
    rw [hsubject] at hsubject'
    cases hrater'
    cases hsubject'
    rw [hid']

/-- The state when the ratings of some events were considered since the graph was projected. -/
structure Considered (config : Config) (entries₀ : List (Entry π)) (s₀ : PeerReputation π γ)
    (entries : List (Entry π)) (mayChange : Bool) (s : PeerReputation π γ) : Prop where
  follows : Follows config entries s
  counted : Counted s
  graph_eq : s.graph = s₀.graph
  mono : config.Projected entries₀ → config.Projected entries
  projected : mayChange = true → config.Projected entries
  unprojected : mayChange = false → (config.Projected entries → config.Projected entries₀) ∧
    authorizedRatings config s.latest = authorizedRatings config s₀.latest

/-- The graph is that of the retained ratings of authorized raters, if it was projected and these
ratings can be applied. -/
structure Projects (crates : SocialCrates π γ) (config : Config) (entries : List (Entry π))
    (s : PeerReputation π γ) : Prop where
  of_projected : config.Projected entries → ∀ graph,
    crates.applyRatings (authorizedRatings config s.latest) = .ok graph → s.graph = graph
  of_not_projected : ¬ config.Projected entries → s.graph = crates.seededGraph

theorem Considered.refl {entries : List (Entry π)} {s : PeerReputation π γ}
    (h : Follows config entries s) (hcounted : Counted s) :
    Considered config entries s entries false s where
  follows := h
  counted := hcounted
  graph_eq := rfl
  mono h := h
  projected h := absurd h Bool.false_ne_true
  unprojected _ := ⟨fun h => h, rfl⟩

/-- One rating more. -/
theorem Considered.inserted {entries₀ entries : List (Entry π)} {s₀ s s' : PeerReputation π γ}
    {mayChange mayChange' : Bool} {key : PeerRatingKey} {stored : StoredPeerRating π}
    (h : Considered config entries₀ s₀ entries mayChange s)
    (hwf : WellFormed config nowSecs (entries ++ [(key, stored)]))
    (hinserted : Inserted s key stored mayChange' s') (hcounted : Counted s') :
    Considered config entries₀ s₀ (entries ++ [(key, stored)]) (mayChange || mayChange') s' where
  follows := h.follows.inserted hwf hinserted
  counted := hcounted
  graph_eq := hinserted.graph_eq.trans h.graph_eq
  mono hprojected := (h.mono hprojected).concat _
  projected hflag := by
    rcases Bool.or_eq_true_iff.mp hflag with rfl | rfl
    · exact (h.projected rfl).concat _
    · exact h.follows.projected hinserted
  unprojected hflag := by
    obtain ⟨rfl, rfl⟩ := Bool.or_eq_false_iff.mp hflag
    obtain ⟨hback, hratings⟩ := h.unprojected rfl
    obtain ⟨hback', hratings'⟩ := h.follows.unprojected hwf hinserted
    exact ⟨fun hprojected => hback (hback' hprojected), hratings'.trans hratings⟩

/-- One event more. -/
theorem Considered.considerEvent {entries₀ : List (Entry π)} {s₀ s : PeerReputation π γ}
    {mayChange : Bool} (hids : crates.IdsAreHashes)
    (h : Considered config entries₀ s₀ (validEntries crates config nowSecs events) mayChange s)
    (event : Event) :
    Considered config entries₀ s₀ (validEntries crates config nowSecs (events ++ [event]))
      (mayChange || (s.considerEvent crates event nowSecs).1.2)
      (s.considerEvent crates event nowSecs).2 := by
  have hwf := wellFormed_validEntries hids config nowSecs (events ++ [event])
  unfold PeerReputation.considerEvent
  rw [h.follows.config_eq]
  cases hparse : parse crates config event nowSecs with
  | none =>
    rw [validEntries_concat, hparse, Option.toList_none, List.append_nil, Bool.or_false]
    exact h
  | some entry =>
    obtain ⟨key, stored⟩ := entry
    rw [validEntries_concat, hparse, Option.toList_some] at hwf ⊢
    obtain ⟨hinserted, hcounted⟩ := insert_inserted h.counted key stored
    exact h.inserted hwf hinserted hcounted

theorem considerAll_concat (crates : SocialCrates π γ) (events : List Event) (event : Event)
    (nowSecs : ℕ) (s : PeerReputation π γ) :
    s.considerAll crates (events ++ [event]) nowSecs
      = let result := s.considerAll crates events nowSecs
        let step := result.2.considerEvent crates event nowSecs
        ((result.1.1 + step.1.1.toNat, result.1.2 || step.1.2), step.2) := by
  rw [PeerReputation.considerAll, List.foldl_append, ← PeerReputation.considerAll]
  rfl

theorem Considered.considerAll {s : PeerReputation π γ} (hids : crates.IdsAreHashes)
    (hfollows : Follows config [] s) (hcounted : Counted s) (nowSecs : ℕ) (events : List Event) :
    Considered config [] s (validEntries crates config nowSecs events)
      (s.considerAll crates events nowSecs).1.2 (s.considerAll crates events nowSecs).2 := by
  induction events using List.reverseRecOn with
  | nil => exact .refl hfollows hcounted
  | append_singleton events event ih =>
    rw [considerAll_concat]
    exact ih.considerEvent hids event

/-- Ratings that can be applied make the graph anew. -/
theorem rebuild_ok {s : PeerReputation π γ} {graph : γ}
    (happly : crates.applyRatings (authorizedRatings s.config s.latest) = .ok graph) :
    s.rebuild crates = (.ok (), { s with graph }) := by
  simp only [PeerReputation.rebuild, happly]

/-- Ratings that cannot be applied leave everything as it was. -/
theorem rebuild_error {s : PeerReputation π γ} {error : String}
    (happly : crates.applyRatings (authorizedRatings s.config s.latest) = .error error) :
    s.rebuild crates = (.error (.validation s!"failed to apply peer ratings: {error}"), s) := by
  simp only [PeerReputation.rebuild, happly]

/-- A projection that fails leaves the graph, and then no graph is claimed. -/
theorem Considered.rebuild {entries₀ entries : List (Entry π)} {s₀ s : PeerReputation π γ}
    (h : Considered config entries₀ s₀ entries true s) :
    Follows config entries (s.rebuild crates).2 ∧ Counted (s.rebuild crates).2 ∧
      Projects crates config entries (s.rebuild crates).2 := by
  obtain ⟨hfollows, hcounted, -, -, hprojected, -⟩ := h
  cases happly : crates.applyRatings (authorizedRatings s.config s.latest) with
  | ok graph =>
    rw [rebuild_ok happly]
    refine ⟨⟨hfollows.config_eq, hfollows.lookup_iff⟩, hcounted, fun _ graph' happly' => ?_,
      fun hnot => absurd (hprojected rfl) hnot⟩
    rw [hfollows.config_eq] at happly
    exact Except.ok.inj (happly.symm.trans happly')
  | error error =>
    rw [rebuild_error happly]
    refine ⟨hfollows, hcounted, fun _ graph' happly' => ?_,
      fun hnot => absurd (hprojected rfl) hnot⟩
    rw [hfollows.config_eq] at happly
    cases happly.symm.trans happly'

/-- The graph after the ratings were considered, projected if it may have changed. -/
theorem Considered.projects {entries₀ entries : List (Entry π)} {s₀ s : PeerReputation π γ}
    {mayChange : Bool} (h₀ : Projects crates config entries₀ s₀)
    (h : Considered config entries₀ s₀ entries mayChange s) :
    let s' := if mayChange then (s.rebuild crates).2 else s
    Follows config entries s' ∧ Counted s' ∧ Projects crates config entries s' := by
  cases mayChange with
  | true => exact h.rebuild
  | false =>
    obtain ⟨hfollows, hcounted, hgraph, hmono, -, hunprojected⟩ := h
    obtain ⟨hback, hratings⟩ := hunprojected rfl
    refine ⟨hfollows, hcounted, fun hprojected => ?_, fun hnot => ?_⟩
    · rw [if_neg Bool.false_ne_true, hratings, hgraph]
      exact h₀.of_projected (hback hprojected)
    · rw [if_neg Bool.false_ne_true, hgraph]
      exact h₀.of_not_projected fun hprojected => hnot (hmono hprojected)

/-- The state after some events, as they should be: what is retained, the counts and the graph. -/
structure Settled (crates : SocialCrates π γ) (config : Config) (entries : List (Entry π))
    (s : PeerReputation π γ) : Prop where
  follows : Follows config entries s
  counted : Counted s
  projects : Projects crates config entries s

theorem not_projected_nil : ¬ config.Projected ([] : List (Entry π)) := by
  rintro (⟨entry, hentry, -⟩ | ⟨rater, hover⟩ | hover)
  · cases hentry
  · simp [Config.ranks, pairsOf] at hover
  · simp [Config.ranks] at hover

theorem settled_new (crates : SocialCrates π γ) (config : Config) :
    Settled crates config [] (PeerReputation.new crates config) where
  follows := ⟨rfl, fun key stored => by simp [PeerReputation.new]⟩
  counted _ := by simp [PeerReputation.new]
  projects := ⟨fun h => absurd h not_projected_nil, fun _ => rfl⟩

/-- There is nothing to prune as long as the clock stands. -/
theorem Settled.pruneMemory {entries : List (Entry π)} {s : PeerReputation π γ}
    (h : Settled crates config entries s) (hwf : WellFormed config nowSecs entries) :
    (s.pruneMemory nowSecs).1 = 0 ∧ Settled crates config entries (s.pruneMemory nowSecs).2 := by
  have hkeep : (s.latest.filter fun _ stored => ratingTimeIsValid stored.rating.createdAt nowSecs)
      = s.latest :=
    Finmap.filter_eq_self fun key stored hlookup =>
      hwf.time_valid _ ((h.follows.lookup_iff key stored).mp hlookup).1
  obtain ⟨hfollows, hcounted, hprojects⟩ := h
  unfold PeerReputation.pruneMemory
  split
  · exact ⟨rfl, hfollows, hcounted, hprojects⟩
  · simp only [hkeep, Nat.sub_self, lt_irrefl, if_false, true_and]
    exact ⟨⟨hfollows.config_eq, hfollows.lookup_iff⟩, hcounted,
      hprojects.of_projected, hprojects.of_not_projected⟩

theorem Settled.ingestEventAt {s : PeerReputation π γ} (hids : crates.IdsAreHashes)
    (h : Settled crates config (validEntries crates config nowSecs events) s) (event : Event) :
    Settled crates config (validEntries crates config nowSecs (events ++ [event]))
      (s.ingestEventAt crates event nowSecs).2 := by
  obtain ⟨hpruned, hsettled⟩ := h.pruneMemory (wellFormed_validEntries hids config nowSecs events)
  have hconsidered := (Considered.refl hsettled.follows hsettled.counted).considerEvent hids event
  obtain ⟨hfollows, hcounted, hprojects⟩ := hconsidered.projects hsettled.projects
  have hstep : (s.ingestEventAt crates event nowSecs).2
      = let considered := (s.pruneMemory nowSecs).2.considerEvent crates event nowSecs
        if false || considered.1.2 then (considered.2.rebuild crates).2 else considered.2 := by
    simp only [PeerReputation.ingestEventAt, hpruned, lt_irrefl, false_or, Bool.false_or]
    split <;> rfl
  rw [hstep]
  exact ⟨hfollows, hcounted, hprojects⟩

theorem settled_ingestAll (hids : crates.IdsAreHashes) (config : Config) (nowSecs : ℕ)
    (events : List Event) :
    Settled crates config (validEntries crates config nowSecs events)
      ((PeerReputation.new crates config).ingestAll crates events nowSecs) := by
  induction events using List.reverseRecOn with
  | nil => exact settled_new crates config
  | append_singleton events event ih =>
    rw [PeerReputation.ingestAll, List.foldl_append, ← PeerReputation.ingestAll]
    exact ih.ingestEventAt hids event

theorem settled_replayAt (hids : crates.IdsAreHashes) (config : Config) (nowSecs : ℕ)
    (events : List Event) :
    Settled crates config (validEntries crates config nowSecs events)
      ((PeerReputation.new crates config).replayAt crates events nowSecs).2 := by
  have hnew := settled_new crates config
  have hconsidered := Considered.considerAll hids hnew.follows hnew.counted nowSecs events
  obtain ⟨hfollows, hcounted, hprojects⟩ := hconsidered.projects hnew.projects
  have hreplay : ((PeerReputation.new crates config).replayAt crates events nowSecs).2
      = let considered := (PeerReputation.new crates config).considerAll crates events nowSecs
        if considered.1.2 then (considered.2.rebuild crates).2 else considered.2 := by
    have hprune : (PeerReputation.new crates config).pruneMemory nowSecs
        = (0, PeerReputation.new crates config) := rfl
    simp only [PeerReputation.replayAt, hprune, lt_irrefl, false_or]
    split <;> rfl
  rw [hreplay]
  exact ⟨hfollows, hcounted, hprojects⟩

/-- What a state should be depends on which events were seen only. -/
theorem Settled.congr {entries entries' : List (Entry π)} {s : PeerReputation π γ}
    (h : Settled crates config entries s) (hmem : ∀ entry, entry ∈ entries ↔ entry ∈ entries') :
    Settled crates config entries' s := by
  have hranks : config.ranks entries = config.ranks entries' := by
    ext rank
    simp only [mem_ranks, hmem]
  have hprojected : config.Projected entries ↔ config.Projected entries' := by
    simp only [Config.Projected, hmem, hranks]
  refine ⟨⟨h.follows.config_eq, fun key stored => ?_⟩, h.counted, ?_, ?_⟩
  · rw [h.follows.lookup_iff, hmem, Config.retained, hranks, Config.retained]
  · exact fun h' => h.projects.of_projected (hprojected.mpr h')
  · exact fun h' => h.projects.of_not_projected (mt hprojected.mp h')

theorem Settled.latest_eq {entries : List (Entry π)} {s s' : PeerReputation π γ}
    (h : Settled crates config entries s) (h' : Settled crates config entries s') :
    s.latest = s'.latest := by
  refine Finmap.ext_lookup fun key => Option.ext fun stored => ?_
  exact (h.follows.lookup_iff key stored).trans (h'.follows.lookup_iff key stored).symm

/-- A replay that projected the graph fails if the retained ratings cannot be applied. -/
theorem applies_of_replayAt (hids : crates.IdsAreHashes)
    (hok : ((PeerReputation.new crates config).replayAt crates events nowSecs).1.isOk = true)
    (hprojected : config.Projected (validEntries crates config nowSecs events)) :
    ∃ graph, crates.applyRatings (authorizedRatings config
      ((PeerReputation.new crates config).replayAt crates events nowSecs).2.latest) = .ok graph := by
  have hnew := settled_new crates config
  have hconsidered := Considered.considerAll hids hnew.follows hnew.counted nowSecs events
  have hprune : (PeerReputation.new crates config).pruneMemory nowSecs
      = (0, PeerReputation.new crates config) := rfl
  simp only [PeerReputation.replayAt, hprune, lt_irrefl, false_or] at hok ⊢
  generalize (PeerReputation.new crates config).considerAll crates events nowSecs = considered
    at hok hconsidered ⊢
  obtain ⟨⟨changed, mayChange⟩, s⟩ := considered
  have hflag : mayChange = true := by
    by_contra hfalse
    have hback := (hconsidered.unprojected (Bool.eq_false_of_not_eq_true hfalse)).1
    exact not_projected_nil (hback hprojected)
  subst hflag
  simp only [if_true] at hok ⊢
  have hconfig := hconsidered.follows.config_eq
  cases happly : crates.applyRatings (authorizedRatings s.config s.latest) with
  | ok graph =>
    rw [rebuild_ok happly]
    exact ⟨graph, hconfig ▸ happly⟩
  | error error =>
    rw [rebuild_error happly] at hok
    cases hok

/-- Ingesting rating events in any order, and replaying them in any order, end with the same retained
ratings, which are those to retain of all valid ones. They end with the same graph as well, the one
that these ratings project, unless the ratings cannot be applied and the replay says so. -/
theorem reputation_order_independent (crates : SocialCrates π γ) (hids : crates.IdsAreHashes)
    (config : Config) (nowSecs : ℕ) (events order : List Event) (horder : order.Perm events) :
    let ingested := (PeerReputation.new crates config).ingestAll crates order nowSecs
    let replay := (PeerReputation.new crates config).replayAt crates events nowSecs
    let valid := validEntries crates config nowSecs events
    (∀ key stored, replay.2.latest.lookup key = some stored ↔
      (key, stored) ∈ valid ∧ config.rank key stored ∈ config.retained valid) ∧
    ingested.latest = replay.2.latest ∧
    (replay.1.isOk = true → ingested.graph = replay.2.graph ∧
      (config.Projected valid →
        crates.applyRatings (authorizedRatings config replay.2.latest) = .ok replay.2.graph) ∧
      (¬ config.Projected valid → replay.2.graph = crates.seededGraph)) := by
  have hreplayed := settled_replayAt hids config nowSecs events
  have hsame : ∀ entry, entry ∈ validEntries crates config nowSecs order ↔
      entry ∈ validEntries crates config nowSecs events := fun _ => (horder.filterMap _).mem_iff
  have hingested := (settled_ingestAll hids config nowSecs order).congr hsame
  have hlatest := hingested.latest_eq hreplayed
  refine ⟨hreplayed.follows.lookup_iff, hlatest, fun hok => ?_⟩
  by_cases hprojected : config.Projected (validEntries crates config nowSecs events)
  · obtain ⟨graph, happly⟩ := applies_of_replayAt hids hok hprojected
    have hreplay := hreplayed.projects.of_projected hprojected graph happly
    rw [← hlatest] at happly
    have hingest := hingested.projects.of_projected hprojected graph happly
    rw [hlatest] at happly
    refine ⟨hingest.trans hreplay.symm, fun _ => ?_, fun hnot => absurd hprojected hnot⟩
    rw [hreplay]
    exact happly
  · have hreplay := hreplayed.projects.of_not_projected hprojected
    refine ⟨?_, fun h => absurd h hprojected, fun _ => hreplay⟩
    rw [hreplay, hingested.projects.of_not_projected hprojected]

/-! ## Two signed ratings -/

/-- The public key of the secret key 5. -/
def ratedPeer : List.Vector UInt8 32 :=
  ⟨[47, 139, 222, 77, 26, 7, 32, 147, 85, 180, 167, 37, 10, 92, 81, 40, 232, 139, 132, 189, 220,
    97, 154, 183, 203, 168, 213, 105, 178, 64, 239, 228], rfl⟩

/-- A signed rating of a peer, with its real id and signature. -/
def ratingA : Event where
  id :=
    ⟨[153, 176, 155, 77, 64, 189, 221, 129, 132, 80, 117, 186, 55, 192, 19, 104, 52, 145, 242, 118,
      183, 212, 195, 167, 59, 21, 236, 80, 125, 76, 156, 112], rfl⟩
  pubkey := noteAuthor
  createdAt := 1
  kind := 7368
  tags := [["p", EventId.toHex ratedPeer], ["i", "fips.peer"], ["rating", "20"]]
  content := ""
  sig :=
    ⟨[186, 36, 23, 138, 28, 82, 161, 68, 23, 198, 124, 220, 26, 205, 23, 224, 140, 245, 15, 101,
      213, 144, 170, 191, 171, 116, 120, 9, 55, 146, 69, 215, 128, 80, 96, 140, 185, 20, 17, 178,
      192, 125, 194, 116, 145, 167, 199, 133, 196, 76, 250, 246, 200, 165, 250, 35, 22, 87, 198,
      64, 182, 156, 90, 49], rfl⟩

/-- A newer rating of the same peer. -/
def ratingB : Event where
  id :=
    ⟨[143, 56, 215, 53, 141, 194, 148, 22, 41, 157, 99, 59, 52, 250, 82, 53, 239, 125, 142, 69, 38,
      138, 90, 157, 170, 222, 206, 52, 136, 245, 226, 240], rfl⟩
  pubkey := noteAuthor
  createdAt := 2
  kind := 7368
  tags := [["p", EventId.toHex ratedPeer], ["i", "fips.peer"], ["rating", "80"]]
  content := ""
  sig :=
    ⟨[89, 238, 199, 80, 235, 225, 115, 191, 56, 126, 0, 149, 34, 160, 45, 13, 218, 11, 248, 210, 3,
      220, 233, 154, 38, 104, 19, 243, 158, 137, 118, 220, 138, 69, 6, 130, 97, 239, 243, 125, 3,
      44, 33, 106, 251, 155, 20, 225, 213, 148, 76, 68, 45, 2, 80, 204, 224, 46, 73, 18, 82, 192,
      206, 46], rfl⟩

/-- What the ratings say: their value is the rest of a rating. -/
def ratingOf (createdAt : ℕ) (value : ℤ) : Rating ℤ where
  rater := EventId.toHex noteAuthor
  subject := EventId.toHex ratedPeer
  scope := some "fips.peer"
  createdAt
  rest := value

/-- The crates as they behave on the two ratings, with the applied ratings as the graph. -/
def ratingCrates : SocialCrates ℤ (List (Rating ℤ)) where
  ratingKind := 7368
  ratingFromEvent event :=
    if event = ratingA then some (ratingOf 1 20)
    else if event = ratingB then some (ratingOf 2 80)
    else none
  parsePublicKey text :=
    if text = EventId.toHex noteAuthor then some noteAuthor
    else if text = EventId.toHex ratedPeer then some ratedPeer
    else none
  seededGraph := []
  applyRatings ratings := .ok ratings

theorem idsAreHashes_ratingCrates : ratingCrates.IdsAreHashes := by
  have hne : ratingA.id ≠ ratingB.id := by decide +kernel
  intro event event' rating rating' h h' hid
  simp only [ratingCrates] at h h'
  split_ifs at h h' with ha ha' hb' hb ha' hb'
  · rw [← Option.some.inj h, ← Option.some.inj h']
  · exact absurd (ha ▸ hb' ▸ hid) hne
  · exact absurd (hb ▸ ha' ▸ hid).symm hne
  · rw [← Option.some.inj h, ← Option.some.inj h']

/-- The author of the ratings trusts itself only. -/
def ownConfig : Config where
  root := EventId.toHex noteAuthor
  scope := "fips.peer"
  trustedRaters := ∅

theorem reputation_order_independent_two :
    [ratingB, ratingA].Perm [ratingA, ratingB] ∧
    (((PeerReputation.new ratingCrates ownConfig).ingestAll ratingCrates
      [ratingB, ratingA] 3).graph.map Rating.rest) = [80] ∧
    ((PeerReputation.new ratingCrates ownConfig).ingestAll ratingCrates [ratingB, ratingA] 3).graph
      = ((PeerReputation.new ratingCrates ownConfig).replayAt ratingCrates
          [ratingA, ratingB] 3).2.graph :=
  ⟨List.Perm.swap _ _ _, by decide +kernel,
    ((reputation_order_independent ratingCrates idsAreHashes_ratingCrates ownConfig 3
      [ratingA, ratingB] [ratingB, ratingA] (List.Perm.swap _ _ _)).2.2 (by decide +kernel)).1⟩

end Events

end NostrPubsub.Reputation
