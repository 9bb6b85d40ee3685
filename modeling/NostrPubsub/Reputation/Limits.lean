import NostrPubsub.Reputation.PeerReputation

/-!
# The limits of the retained ratings

The retained ratings are seen as the set of their ranks (`Config.ranksOf`): the keys keep them apart.
`enforceEntryLimitsWith` drops the oldest of each rater and then the oldest of all, which is the
selection of the ranks under nested limits (`lookup_enforceEntryLimitsWith`).
-/

namespace NostrPubsub.Reputation

variable {π : Type}

/-! ## The limits -/

theorem mem_valuesOf {β : Type} [DecidableEq β] {f : PeerRatingKey → StoredPeerRating π → β}
    {latest : Latest π} {b : β} :
    b ∈ valuesOf f latest ↔ ∃ key stored, latest.lookup key = some stored ∧ f key stored = b := by
  simp only [valuesOf, Multiset.mem_toFinset, Multiset.mem_map, Sigma.exists,
    Finmap.lookup_eq_some_iff]

theorem lookup_removeAll_eq_some {keys : List PeerRatingKey} {latest : Latest π}
    {key : PeerRatingKey} {stored : StoredPeerRating π} :
    (removeAll keys latest).lookup key = some stored ↔
      key ∉ keys ∧ latest.lookup key = some stored := by
  induction keys generalizing latest with
  | nil => simp [removeAll]
  | cons head keys ih =>
    rw [removeAll, List.foldl_cons, ← removeAll, ih, Finmap.lookup_erase_eq_some, List.mem_cons,
      not_or]
    tauto

@[simp]
theorem key_ageOrder (key : PeerRatingKey) (stored : StoredPeerRating π) :
    AgeOrder.key (ageOrder key stored) = key := rfl

@[simp]
theorem key_rank (config : Config) (key : PeerRatingKey) (stored : StoredPeerRating π) :
    Rank.key (config.rank key stored) = key := rfl

/-- The ranks of the retained ratings. -/
abbrev Config.ranksOf (config : Config) (latest : Latest π) : Finset Rank :=
  valuesOf config.rank latest

theorem rank_mem_ranksOf {config : Config} {latest : Latest π} {key : PeerRatingKey}
    {stored : StoredPeerRating π} (h : latest.lookup key = some stored) :
    config.rank key stored ∈ config.ranksOf latest :=
  mem_valuesOf.mpr ⟨key, stored, h, rfl⟩

theorem injOn_ranksOf (config : Config) (latest : Latest π) :
    Set.InjOn Rank.key (config.ranksOf latest : Set Rank) := by
  intro a ha b hb hkey
  obtain ⟨key, stored, hlookup, rfl⟩ := mem_valuesOf.mp (Finset.mem_coe.mp ha)
  obtain ⟨key', stored', hlookup', rfl⟩ := mem_valuesOf.mp (Finset.mem_coe.mp hb)
  obtain rfl : key = key' := hkey
  rw [hlookup] at hlookup'
  rw [Option.some.inj hlookup']

theorem image_ranksOf (config : Config) (latest : Latest π) :
    (config.ranksOf latest).image Rank.key = latest.keys := by
  ext key
  rw [Finset.mem_image, Finmap.mem_keys, Finmap.mem_iff]
  constructor
  · rintro ⟨rank, hrank, rfl⟩
    obtain ⟨key, stored, hlookup, rfl⟩ := mem_valuesOf.mp hrank
    exact ⟨stored, hlookup⟩
  · rintro ⟨stored, hlookup⟩
    exact ⟨config.rank key stored, rank_mem_ranksOf hlookup, rfl⟩

theorem card_ranksOf (config : Config) (latest : Latest π) :
    (config.ranksOf latest).card = latest.size := by
  rw [Finmap.size, ← image_ranksOf config, Finset.card_image_of_injOn (injOn_ranksOf config latest)]

theorem card_ranksOf_rater (config : Config) (latest : Latest π) (rater : String) :
    ((config.ranksOf latest).filter fun rank => rank.key.rater = rater).card
      = (latest.keys.filter fun key => key.rater = rater).card := by
  rw [card_group_of_injOn (injOn_ranksOf config latest), pairsOf_eq, image_ranksOf]

/-- Among the entries of one rater, the order of age and the rank agree. -/
theorem mem_top_ageOrder_iff (config : Config) {N : ℕ} {latest : Latest π} {key : PeerRatingKey}
    {stored : StoredPeerRating π} (h : latest.lookup key = some stored) :
    ageOrder key stored ∈
        ((valuesOf ageOrder latest).filter fun order => order.key.rater = key.rater).top N ↔
      config.rank key stored ∈ topEach Rank.key PeerRatingKey.rater N (config.ranksOf latest) := by
  have habove : ((config.ranksOf latest).filter fun rank =>
        rank.key.rater = key.rater ∧ config.rank key stored < rank)
      = (((valuesOf ageOrder latest).filter fun order => order.key.rater = key.rater).filter
          (ageOrder key stored < ·)).image
          fun order => toLex (config.raterIsAuthorized key.rater, order) := by
    ext rank
    simp only [Finset.mem_filter, Finset.mem_image]
    constructor
    · rintro ⟨hrank, hrater, hlt⟩
      obtain ⟨key', stored', hlookup, rfl⟩ := mem_valuesOf.mp hrank
      rw [key_rank] at hrater
      rw [Config.rank, Config.rank, hrater, Prod.Lex.toLex_lt_toLex] at hlt
      rcases hlt with hlt | ⟨-, hlt⟩
      · exact absurd hlt (lt_irrefl _)
      · refine ⟨ageOrder key' stored', ⟨⟨mem_valuesOf.mpr ⟨_, _, hlookup, rfl⟩, hrater⟩, hlt⟩, ?_⟩
        rw [Config.rank, hrater]
    · rintro ⟨order, ⟨⟨horder, hrater⟩, hlt⟩, rfl⟩
      obtain ⟨key', stored', hlookup, rfl⟩ := mem_valuesOf.mp horder
      rw [key_ageOrder] at hrater
      rw [← hrater]
      refine ⟨rank_mem_ranksOf hlookup, hrater.symm ▸ rfl, ?_⟩
      rw [Config.rank, ← hrater, Prod.Lex.toLex_lt_toLex]
      exact .inr ⟨rfl, hlt⟩
  rw [Finset.mem_top, mem_topEach, key_rank, habove, Finset.card_image_of_injective]
  · simp only [Finset.mem_filter, key_ageOrder, and_true]
    exact and_congr_left fun _ =>
      ⟨fun _ => rank_mem_ranksOf h, fun _ => mem_valuesOf.mpr ⟨_, _, h, rfl⟩⟩
  · intro order order' heq
    exact (Prod.mk.inj (toLex_inj.mp heq)).2

theorem mem_excessOf (config : Config) {N : ℕ} {latest : Latest π} {rater : String}
    {key : PeerRatingKey} {stored : StoredPeerRating π} (h : latest.lookup key = some stored) :
    key ∈ excessOf N latest rater ↔ key.rater = rater ∧
      config.rank key stored ∉ topEach Rank.key PeerRatingKey.rater N (config.ranksOf latest) := by
  rw [excessOf, List.mem_map]
  constructor
  · rintro ⟨order, horder, rfl⟩
    obtain ⟨hmem, htop⟩ := Finset.mem_take_ascending.mp horder
    obtain ⟨hvalue, hrater⟩ := Finset.mem_filter.mp hmem
    obtain ⟨key', stored', hlookup, rfl⟩ := mem_valuesOf.mp hvalue
    rw [key_ageOrder] at h hrater
    subst hrater
    rw [hlookup] at h
    cases h
    exact ⟨rfl, fun hkept => htop ((mem_top_ageOrder_iff config hlookup).mpr hkept)⟩
  · rintro ⟨rfl, hnot⟩
    refine ⟨ageOrder key stored, Finset.mem_take_ascending.mpr ⟨?_, ?_⟩, rfl⟩
    · exact Finset.mem_filter.mpr ⟨mem_valuesOf.mpr ⟨key, stored, h, rfl⟩, rfl⟩
    · exact fun htop => hnot ((mem_top_ageOrder_iff config h).mp htop)

/-- What the limits keep. -/
theorem lookup_enforceEntryLimitsWith {config : Config} {M N : ℕ} {latest : Latest π}
    {key : PeerRatingKey} {stored : StoredPeerRating π} :
    (enforceEntryLimitsWith config M N latest).lookup key = some stored ↔
      latest.lookup key = some stored ∧
        config.rank key stored ∈ select Rank.key PeerRatingKey.rater N M (config.ranksOf latest) := by
  rw [select, best_eq_self (injOn_ranksOf config latest)]
  unfold enforceEntryLimitsWith
  set within := removeAll ((latest.keys.image PeerRatingKey.rater).ascending.flatMap
    (excessOf N latest)) latest with hwithin
  -- the limit of each rater
  have hlookup : ∀ key stored, within.lookup key = some stored ↔ latest.lookup key = some stored ∧
      config.rank key stored ∈ topEach Rank.key PeerRatingKey.rater N (config.ranksOf latest) := by
    intro key stored
    rw [hwithin, lookup_removeAll_eq_some, and_comm]
    refine and_congr_right fun h => ?_
    simp only [List.mem_flatMap, Finset.mem_ascending, mem_excessOf config h]
    constructor
    · intro hnot
      by_contra hover
      refine hnot ⟨key.rater, Finset.mem_image_of_mem _ ?_, rfl, hover⟩
      exact Finmap.mem_keys.mpr (Finmap.mem_of_lookup_eq_some h)
    · rintro hkept ⟨-, -, -, hover⟩
      exact hover hkept
  have hranks : config.ranksOf within
      = topEach Rank.key PeerRatingKey.rater N (config.ranksOf latest) := by
    ext rank
    constructor
    · intro hrank
      obtain ⟨key, stored, h, rfl⟩ := mem_valuesOf.mp hrank
      exact ((hlookup key stored).mp h).2
    · intro hrank
      obtain ⟨key, stored, h, rfl⟩ := mem_valuesOf.mp (mem_topEach.mp hrank).1
      exact rank_mem_ranksOf ((hlookup key stored).mpr ⟨h, hrank⟩)
  rw [← hranks]
  -- the limit of all
  by_cases hexcess : within.size - M = 0
  · rw [if_pos hexcess, Finset.top_eq_self (by rw [card_ranksOf]; omega), hlookup, hranks]
  · rw [if_neg hexcess, lookup_removeAll_eq_some, ← card_ranksOf config within]
    constructor
    · rintro ⟨hnot, h⟩
      refine ⟨((hlookup key stored).mp h).1, ?_⟩
      by_contra hover
      exact hnot (List.mem_map.mpr ⟨config.rank key stored,
        Finset.mem_take_ascending.mpr ⟨rank_mem_ranksOf h, hover⟩, rfl⟩)
    · rintro ⟨h, htop⟩
      have hkept := hranks ▸ Finset.top_subset _ _ htop
      have hwithin' := (hlookup key stored).mpr ⟨h, hkept⟩
      refine ⟨fun hmem => ?_, hwithin'⟩
      obtain ⟨rank, hrank, hkey⟩ := List.mem_map.mp hmem
      obtain ⟨hin, hover⟩ := Finset.mem_take_ascending.mp hrank
      refine hover ?_
      rwa [injOn_ranksOf config within hin (rank_mem_ranksOf hwithin') hkey]

/-! ## How many ratings a rater has -/

theorem lookup_countEntry (counts : Table ℕ) (rater rater' : String) :
    ((countEntry counts rater).lookup rater').getD 0
      = (counts.lookup rater').getD 0 + if rater = rater' then 1 else 0 := by
  by_cases h : rater = rater'
  · subst h
    simp [countEntry]
  · simp [countEntry, Finmap.lookup_insert_of_ne _ (Ne.symm h), h]

theorem lookup_entryCounts (latest : Latest π) (rater : String) :
    ((entryCounts latest).lookup rater).getD 0
      = (latest.keys.filter fun key => key.rater = rater).card := by
  have hfold : ∀ (keys : List PeerRatingKey) (counts : Table ℕ),
      ((keys.foldl (fun counts key => countEntry counts key.rater) counts).lookup rater).getD 0
        = (counts.lookup rater).getD 0 + (keys.filter fun key => key.rater = rater).length := by
    intro keys
    induction keys with
    | nil => simp
    | cons key keys ih =>
      intro counts
      rw [List.foldl_cons, ih, lookup_countEntry, List.filter_cons]
      by_cases h : key.rater = rater
      · simp [h]
        omega
      · simp [h]
  rw [entryCounts, hfold, ← Finset.ascending_filter, Finset.length_ascending]
  simp

end NostrPubsub.Reputation
