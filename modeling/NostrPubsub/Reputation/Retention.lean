import NostrPubsub.Reputation.ArrivalOrder
import NostrPubsub.ToMathlib.Mealy

/-!
# The reputation projection is never stale

A call of `PeerReputation` prunes, considers some events and projects the graph again if it may have
changed (`refresh`). The prune is skipped before a cached deadline, and the projection when a flag
says that no retained rating of an authorized rater changed.

`Retained` is what the tables have in common between calls, at the time of the last one. That the
deadline is a lower bound of the expiry of every retained rating makes the skipped prune harmless
(`Retained.latest_pruneMemory`); that the flag is raised whenever the projected ratings change keeps
the graph current (`Current.refresh`).
-/

namespace NostrPubsub.Reputation

open PeerReputation (authorizedRatings parse)

variable {π γ : Type}

/-! ## Calls -/

/-- A call, with its time. -/
inductive Call where
  | ingest (event : Event) (nowSecs : ℕ)
  | replay (events : List Event) (nowSecs : ℕ)
  | prune (nowSecs : ℕ)

/-- What a call returns. -/
inductive CallResult where
  | ingested (result : Except PubsubError Bool)
  | replayed (result : Except PubsubError ℕ)
  | pruned (result : Except PubsubError ℕ)

/-- The call did not return an error. -/
def CallResult.isOk : CallResult → Bool
  | .ingested result => result.isOk
  | .replayed result => result.isOk
  | .pruned result => result.isOk

namespace Call

/-- The time of a call. -/
def nowSecs : Call → ℕ
  | .ingest _ nowSecs => nowSecs
  | .replay _ nowSecs => nowSecs
  | .prune nowSecs => nowSecs

/-- The events that a call considers. -/
def events : Call → List Event
  | .ingest event _ => [event]
  | .replay events _ => events
  | .prune _ => []

/-- Perform a call. -/
def run (crates : SocialCrates π γ) :
    Call → PeerReputation π γ → CallResult × PeerReputation π γ
  | .ingest event nowSecs, s =>
    let (result, s) := s.ingestEventAt crates event nowSecs
    (.ingested result, s)
  | .replay events nowSecs, s =>
    let (result, s) := s.replayAt crates events nowSecs
    (.replayed result, s)
  | .prune nowSecs, s =>
    let (result, s) := s.prune crates nowSecs
    (.pruned result, s)

end Call

/-- The state after some calls. -/
def reputationAfter (crates : SocialCrates π γ) (config : Config) (calls : List Call) :
    PeerReputation π γ :=
  Mealy.after (Call.run crates) (PeerReputation.new crates config) calls

/-- What all calls have in common: prune, consider some events, and project the graph again if it
may have changed. -/
def refresh (crates : SocialCrates π γ) (events : List Event) (nowSecs : ℕ)
    (s : PeerReputation π γ) : Except PubsubError Unit × PeerReputation π γ :=
  let pruned := s.pruneMemory nowSecs
  let considered := pruned.2.considerAll crates events nowSecs
  if 0 < pruned.1 ∨ considered.1.2 = true then considered.2.rebuild crates
  else (.ok (), considered.2)

theorem isOk_map {ε α β : Type} (f : α → β) (result : Except ε α) :
    (result.map f).isOk = result.isOk := by cases result <;> rfl

/-- A call refreshes the state. -/
theorem Call.run_eq_refresh (crates : SocialCrates π γ) (call : Call) (s : PeerReputation π γ) :
    (call.run crates s).2 = (refresh crates call.events call.nowSecs s).2 ∧
      (call.run crates s).1.isOk = (refresh crates call.events call.nowSecs s).1.isOk := by
  cases call with
  | ingest event nowSecs =>
    have hone : (s.pruneMemory nowSecs).2.considerAll crates [event] nowSecs =
        let step := (s.pruneMemory nowSecs).2.considerEvent crates event nowSecs
        ((0 + step.1.1.toNat, false || step.1.2), step.2) := rfl
    simp only [run, refresh, events, Call.nowSecs, hone, PeerReputation.ingestEventAt,
      Bool.false_or]
    split
    · exact ⟨rfl, isOk_map _ _⟩
    · exact ⟨rfl, rfl⟩
  | replay events nowSecs =>
    simp only [run, refresh, Call.events, Call.nowSecs, PeerReputation.replayAt]
    split
    · next hproject =>
      simp only [hproject, if_true]
      exact ⟨trivial, isOk_map _ _⟩
    · next hproject =>
      simp only [hproject, if_false]
      exact ⟨trivial, rfl⟩
  | prune nowSecs =>
    have hnone : (s.pruneMemory nowSecs).2.considerAll crates [] nowSecs
        = ((0, false), (s.pruneMemory nowSecs).2) := rfl
    simp only [run, refresh, events, Call.nowSecs, hnone, PeerReputation.prune,
      Bool.false_eq_true, or_false]
    split
    · exact ⟨rfl, isOk_map _ _⟩
    · exact ⟨rfl, rfl⟩

/-! ## Between calls -/

/-- What the tables have in common at time `nowSecs`: the counts are exact, the limits are kept, and
the ratings name their rater, are neither too old nor from the future, and expire no earlier than
the next prune. -/
structure Retained (config : Config) (nowSecs : ℕ) (s : PeerReputation π γ) : Prop where
  config_eq : s.config = config
  counted : Counted s
  positive : ∀ rater, s.entriesByRater.lookup rater ≠ some 0
  within : ¬ Config.Overflows (config.ranksOf s.latest)
  rater_eq : ∀ key stored, s.latest.lookup key = some stored → stored.rating.rater = key.rater
  time_valid : ∀ key stored, s.latest.lookup key = some stored →
    ratingTimeIsValid stored.rating.createdAt nowSecs = true
  scheduled : ∀ key stored, s.latest.lookup key = some stored →
    ∃ next, s.nextPruneAtSecs = some next ∧ next ≤ expiresAt stored.rating.createdAt

theorem retained_new (crates : SocialCrates π γ) (config : Config) (nowSecs : ℕ) :
    Retained config nowSecs (PeerReputation.new crates config) where
  config_eq := rfl
  counted _ := by simp [PeerReputation.new]
  positive _ := by simp [PeerReputation.new]
  within := by
    rintro (⟨rater, hover⟩ | hover)
    · rw [pairsOf_eq, image_ranksOf] at hover
      simp [PeerReputation.new] at hover
    · rw [image_ranksOf] at hover
      simp [PeerReputation.new] at hover
  rater_eq key stored h := by simp [PeerReputation.new] at h
  time_valid key stored h := by simp [PeerReputation.new] at h
  scheduled key stored h := by simp [PeerReputation.new] at h

theorem timely_of_lt {createdAt before nowSecs maxSkew maxAge : ℕ}
    (hskew : createdAt ≤ satAdd before maxSkew) (hle : before ≤ nowSecs)
    (hlt : nowSecs < satAdd (satAdd createdAt maxAge) 1) :
    createdAt ≤ satAdd nowSecs maxSkew ∧ nowSecs - createdAt ≤ maxAge := by
  unfold satAdd at hskew hlt ⊢
  omega

/-- A rating that was valid stays so until it expires. -/
theorem ratingTimeIsValid_of_lt {createdAt before nowSecs : ℕ}
    (h : ratingTimeIsValid createdAt before = true) (hle : before ≤ nowSecs)
    (hlt : nowSecs < expiresAt createdAt) : ratingTimeIsValid createdAt nowSecs = true :=
  decide_eq_true (timely_of_lt (of_decide_eq_true h).1 hle hlt)

/-- One rater more is counted at least once. -/
theorem countEntry_positive {counts : Table ℕ} (h : ∀ rater, counts.lookup rater ≠ some 0)
    (rater rater' : String) : (countEntry counts rater).lookup rater' ≠ some 0 := by
  unfold countEntry
  by_cases heq : rater' = rater
  · subst heq
    simp
  · rw [Finmap.lookup_insert_of_ne _ heq]
    exact h rater'

theorem entryCounts_positive (latest : Latest π) (rater : String) :
    (entryCounts latest).lookup rater ≠ some 0 := by
  have hfold : ∀ (keys : List PeerRatingKey) (counts : Table ℕ),
      (∀ rater, counts.lookup rater ≠ some 0) → ∀ rater,
        (keys.foldl (fun counts key => countEntry counts key.rater) counts).lookup rater
          ≠ some 0 := by
    intro keys
    induction keys with
    | nil => exact fun _ h => h
    | cons key keys ih => exact fun counts h => ih _ (countEntry_positive h key.rater)
  exact hfold _ ∅ (by simp) rater

/-- Dropping ratings exceeds no limit. -/
theorem not_overflows_of_lookup {config : Config} {latest latest' : Latest π}
    (h : ¬ Config.Overflows (config.ranksOf latest))
    (hsub : ∀ key stored, latest'.lookup key = some stored → latest.lookup key = some stored) :
    ¬ Config.Overflows (config.ranksOf latest') := by
  refine fun hover => h (hover.mono fun rank hrank => ?_)
  obtain ⟨key, stored, hlookup, rfl⟩ := mem_valuesOf.mp hrank
  exact rank_mem_ranksOf (hsub key stored hlookup)

/-! ## Pruning -/

/-- The body of `prune_memory`, run without looking at the deadline. -/
def pruneBody (nowSecs : ℕ) (s : PeerReputation π γ) : ℕ × PeerReputation π γ :=
  let latest := s.latest.filter fun _ stored => ratingTimeIsValid stored.rating.createdAt nowSecs
  let removed := s.latest.size - latest.size
  let entriesByRater := if 0 < removed then entryCounts latest else s.entriesByRater
  let nextPruneAtSecs :=
    (valuesOf (fun _ stored => expiresAt stored.rating.createdAt) latest).ascending.head?
  (removed, { s with latest, entriesByRater, nextPruneAtSecs })

theorem pruneMemory_eq (nowSecs : ℕ) (s : PeerReputation π γ) : s.pruneMemory nowSecs =
    if s.nextPruneAtSecs.all fun next => decide (nowSecs < next) then (0, s)
    else pruneBody nowSecs s := rfl

section Prune

variable {config : Config} {before nowSecs : ℕ} {s : PeerReputation π γ}

/-- The head of an ascending list is not above any element. -/
theorem exists_head_le {s : Finset ℕ} {a : ℕ} (h : a ∈ s) :
    ∃ first, s.ascending.head? = some first ∧ first ≤ a := by
  have hsorted := s.pairwise_ascending
  have hmem := Finset.mem_ascending.mpr h
  cases hlist : s.ascending with
  | nil =>
    rw [hlist] at hmem
    cases hmem
  | cons first rest =>
    rw [hlist] at hsorted hmem
    refine ⟨first, rfl, ?_⟩
    rcases List.mem_cons.mp hmem with rfl | hrest
    · exact le_refl _
    · exact ((List.pairwise_cons.mp hsorted).1 a hrest).le

/-- Before the deadline every retained rating is valid. -/
theorem Retained.valid_of_skipped (h : Retained config before s) (hle : before ≤ nowSecs)
    (hskip : s.nextPruneAtSecs.all (fun next => decide (nowSecs < next)) = true)
    {key : PeerRatingKey} {stored : StoredPeerRating π}
    (hlookup : s.latest.lookup key = some stored) :
    ratingTimeIsValid stored.rating.createdAt nowSecs = true := by
  obtain ⟨next, hnext, hexpires⟩ := h.scheduled key stored hlookup
  rw [hnext, Option.all_some, decide_eq_true_eq] at hskip
  exact ratingTimeIsValid_of_lt (h.time_valid key stored hlookup) hle (hskip.trans_le hexpires)

/-- The body of the prune keeps the invariant, at the later time. -/
theorem Retained.pruneBody (h : Retained config before s) :
    Retained config nowSecs (Reputation.pruneBody nowSecs s).2 where
  config_eq := h.config_eq
  counted := by
    unfold Reputation.pruneBody
    simp only
    split
    · exact lookup_entryCounts _
    · next hnone =>
      intro rater
      rw [Finmap.filter_eq_self_of_size (Nat.sub_eq_zero_iff_le.mp (Nat.eq_zero_of_not_pos hnone))]
      exact h.counted rater
  positive := by
    unfold Reputation.pruneBody
    simp only
    split
    · exact entryCounts_positive _
    · exact h.positive
  within := not_overflows_of_lookup h.within fun key stored hlookup =>
    (Finmap.lookup_filter_eq_some.mp hlookup).1
  rater_eq key stored hlookup := h.rater_eq key stored (Finmap.lookup_filter_eq_some.mp hlookup).1
  time_valid key stored hlookup := (Finmap.lookup_filter_eq_some.mp hlookup).2
  scheduled key stored hlookup := exists_head_le (mem_valuesOf.mpr ⟨key, stored, hlookup, rfl⟩)

/-- A prune keeps what is valid at its time, whether its body runs or is skipped. -/
theorem Retained.latest_pruneMemory (h : Retained config before s) (hle : before ≤ nowSecs) :
    (s.pruneMemory nowSecs).2.latest
      = s.latest.filter fun _ stored => ratingTimeIsValid stored.rating.createdAt nowSecs := by
  rw [pruneMemory_eq]
  split
  · next hskip =>
    exact (Finmap.filter_eq_self fun _ _ hlookup => h.valid_of_skipped hle hskip hlookup).symm
  · rfl

theorem Retained.pruneMemory (h : Retained config before s) (hle : before ≤ nowSecs) :
    Retained config nowSecs (s.pruneMemory nowSecs).2 := by
  rw [pruneMemory_eq]
  split
  · next hskip =>
    exact { h with time_valid := fun _ _ hlookup => h.valid_of_skipped hle hskip hlookup }
  · exact h.pruneBody

theorem graph_pruneMemory (nowSecs : ℕ) (s : PeerReputation π γ) :
    (s.pruneMemory nowSecs).2.graph = s.graph := by
  rw [pruneMemory_eq]
  split <;> rfl

/-- A prune that removes nothing leaves the retained ratings as they were. -/
theorem latest_of_pruneMemory_eq_zero (h : (s.pruneMemory nowSecs).1 = 0) :
    (s.pruneMemory nowSecs).2.latest = s.latest := by
  rw [pruneMemory_eq] at h ⊢
  split
  · rfl
  · next hdue =>
    rw [if_neg hdue] at h
    exact Finmap.filter_eq_self_of_size (Nat.sub_eq_zero_iff_le.mp h)

/-- The body that is skipped would have removed nothing and changed nothing but the deadline. -/
theorem Retained.pruneBody_of_skipped (h : Retained config before s) (hle : before ≤ nowSecs)
    (hskip : s.nextPruneAtSecs.all (fun next => decide (nowSecs < next)) = true) :
    ∃ nextPruneAtSecs, Reputation.pruneBody nowSecs s = (0, { s with nextPruneAtSecs }) := by
  have hkeep : (s.latest.filter fun _ stored => ratingTimeIsValid stored.rating.createdAt nowSecs)
      = s.latest :=
    Finmap.filter_eq_self fun _ _ hlookup => h.valid_of_skipped hle hskip hlookup
  simp only [Reputation.pruneBody, hkeep, Nat.sub_self, lt_irrefl, if_false]
  exact ⟨_, rfl⟩

end Prune

/-! ## Considering events -/

section Consider

variable {config : Config} {nowSecs : ℕ} {s s' : PeerReputation π γ} {key : PeerRatingKey}
  {stored : StoredPeerRating π}

/-- The deadline after a rating is not after the one before nor after its expiry. -/
theorem elim_min_le (scheduled : Option ℕ) (expires : ℕ) :
    scheduled.elim expires (fun next => min next expires) ≤ expires ∧
      ∀ before, scheduled = some before →
        scheduled.elim expires (fun next => min next expires) ≤ before := by
  cases scheduled with
  | none => exact ⟨le_refl _, fun _ h => nomatch h⟩
  | some next => exact ⟨min_le_right _ _, fun _ h => Option.some.inj h ▸ min_le_left _ _⟩

/-- What putting a rating in does to the counts and to the deadline. -/
theorem insert_tables (key : PeerRatingKey) (stored : StoredPeerRating π)
    (s : PeerReputation π γ) (h : ∀ rater, s.entriesByRater.lookup rater ≠ some 0) :
    (s.insert key stored).2 = s ∨
      (∀ rater, (s.insert key stored).2.entriesByRater.lookup rater ≠ some 0) ∧
      ∃ next, (s.insert key stored).2.nextPruneAtSecs = some next ∧
        next ≤ expiresAt stored.rating.createdAt ∧
        ∀ scheduled, s.nextPruneAtSecs = some scheduled → next ≤ scheduled := by
  by_cases hold : (s.latest.lookup key).any fun existing =>
      decide (toLex (stored.rating.createdAt, stored.eventId)
        ≤ toLex (existing.rating.createdAt, existing.eventId))
  · exact .inl (congrArg Prod.snd (if_pos hold))
  right
  have hcounts : ∀ rater, (if (s.latest.lookup key).isNone then
      countEntry s.entriesByRater key.rater else s.entriesByRater).lookup rater ≠ some 0 := by
    split
    · exact countEntry_positive h key.rater
    · exact h
  have hnext := elim_min_le s.nextPruneAtSecs (expiresAt stored.rating.createdAt)
  unfold PeerReputation.insert
  rw [if_neg hold]
  simp only
  generalize (if (s.latest.lookup key).isNone = true then countEntry s.entriesByRater key.rater
    else s.entriesByRater) = counts at hcounts ⊢
  split
  · exact ⟨entryCounts_positive _, _, rfl, hnext.1, hnext.2⟩
  · exact ⟨hcounts, _, rfl, hnext.1, hnext.2⟩

/-- What is retained after a rating was put in was there, or is the rating. -/
theorem Inserted.lookup_cases {mayChange : Bool} (h : Inserted s key stored mayChange s')
    {key' : PeerRatingKey} {stored' : StoredPeerRating π}
    (hlookup : s'.latest.lookup key' = some stored') :
    s.latest.lookup key' = some stored' ∨ key' = key ∧ stored' = stored := by
  have hinsert : (s.latest.insert key stored).lookup key' = some stored' →
      s.latest.lookup key' = some stored' ∨ key' = key ∧ stored' = stored := by
    intro h
    rcases Finmap.lookup_insert_eq_some.mp h with ⟨rfl, rfl⟩ | ⟨_, hold⟩
    · exact .inr ⟨rfl, rfl⟩
    · exact .inl hold
  cases h with
  | rejected => exact .inl hlookup
  | kept _ _ _ _ hlatest => exact hinsert (hlatest ▸ hlookup)
  | limited _ _ _ _ hlatest =>
    rw [hlatest] at hlookup
    exact hinsert (lookup_enforceEntryLimitsWith.mp hlookup).1

theorem Inserted.config_eq {mayChange : Bool} (h : Inserted s key stored mayChange s') :
    s'.config = s.config := by
  cases h with
  | rejected => rfl
  | kept _ _ hconfig => exact hconfig
  | limited _ _ hconfig => exact hconfig

/-- Putting a rating in exceeds no limit. -/
theorem Inserted.not_overflows {mayChange : Bool} (h : Inserted s key stored mayChange s')
    (hnot : ¬ Config.Overflows (s.config.ranksOf s.latest)) :
    ¬ Config.Overflows (s.config.ranksOf s'.latest) := by
  cases h with
  | rejected => exact hnot
  | kept _ hlimits _ _ hlatest =>
    rw [hlatest]
    exact mt (limitsExceeded_iff hnot).mpr hlimits
  | limited _ hlimits _ _ hlatest =>
    refine fun hover => not_overflow_select (s.config.ranksOf (s.latest.insert key stored))
      (hover.mono fun rank hrank => ?_)
    obtain ⟨key', stored', hlookup, rfl⟩ := mem_valuesOf.mp hrank
    rw [hlatest] at hlookup
    exact (lookup_enforceEntryLimitsWith.mp hlookup).2

theorem Retained.insert (h : Retained config nowSecs s) (hrater : stored.rating.rater = key.rater)
    (hvalid : ratingTimeIsValid stored.rating.createdAt nowSecs = true) :
    Retained config nowSecs (s.insert key stored).2 := by
  obtain ⟨hinserted, hcounted⟩ := insert_inserted h.counted key stored
  rcases insert_tables key stored s h.positive with hsame | ⟨hpositive, next, hnext, hle, hbelow⟩
  · rwa [hsame]
  obtain rfl := h.config_eq
  refine ⟨hinserted.config_eq, hcounted, hpositive, hinserted.not_overflows h.within, ?_, ?_, ?_⟩
  · intro key' stored' hlookup
    rcases hinserted.lookup_cases hlookup with hold | ⟨rfl, rfl⟩
    · exact h.rater_eq key' stored' hold
    · exact hrater
  · intro key' stored' hlookup
    rcases hinserted.lookup_cases hlookup with hold | ⟨rfl, rfl⟩
    · exact h.time_valid key' stored' hold
    · exact hvalid
  · intro key' stored' hlookup
    refine ⟨next, hnext, ?_⟩
    rcases hinserted.lookup_cases hlookup with hold | ⟨rfl, rfl⟩
    · obtain ⟨scheduled, hscheduled, hexpires⟩ := h.scheduled key' stored' hold
      exact (hbelow scheduled hscheduled).trans hexpires
    · exact hle

variable {crates : SocialCrates π γ} {event : Event}

/-- A valid event is signed by the rater of its rating. -/
theorem rater_of_parse (h : parse crates config event nowSecs = some (key, stored)) :
    key.rater = EventId.toHex event.pubkey := by
  simp only [parse, guard, Option.bind_eq_bind, Option.bind_eq_some_iff] at h
  obtain ⟨_, -, rating, -, _, -, _, -, rater, -, _, hsigned, subject, -, hentry⟩ := h
  have hpubkey : rater = event.pubkey := by
    by_contra hother
    rw [if_neg hother] at hsigned
    cases hsigned
  cases hentry
  rw [hpubkey]

/-- The state `s'` after some events were considered in `s`: the graph is the same, and so are the
ratings to project unless the flag is raised. -/
structure Updated (config : Config) (nowSecs : ℕ) (s s' : PeerReputation π γ) (mayChange : Bool) :
    Prop where
  retained : Retained config nowSecs s'
  graph_eq : s'.graph = s.graph
  ratings_eq : mayChange = false →
    authorizedRatings config s'.latest = authorizedRatings config s.latest

theorem Retained.considerEvent (crates : SocialCrates π γ) (h : Retained config nowSecs s)
    (event : Event) :
    Updated config nowSecs s (s.considerEvent crates event nowSecs).2
      (s.considerEvent crates event nowSecs).1.2 := by
  unfold PeerReputation.considerEvent
  cases hparse : parse crates s.config event nowSecs with
  | none => exact ⟨h, rfl, fun _ => rfl⟩
  | some entry =>
    obtain ⟨key, stored⟩ := entry
    obtain ⟨hinserted, -⟩ := insert_inserted h.counted key stored
    have hinsert : Retained config nowSecs (s.insert key stored).2 := by
      obtain ⟨rating, rater, subject, -, -, -, htime, rfl, rfl⟩ := parse_eq_some hparse
      exact h.insert rfl htime
    refine ⟨hinsert, hinserted.graph_eq, fun hflag => ?_⟩
    simp only at hflag
    rw [hflag] at hinserted
    rw [← h.config_eq]
    exact hinserted.authorizedRatings_eq h.rater_eq hinsert.rater_eq

theorem Retained.considerAll (crates : SocialCrates π γ) (h : Retained config nowSecs s)
    (events : List Event) :
    Updated config nowSecs s (s.considerAll crates events nowSecs).2
      (s.considerAll crates events nowSecs).1.2 := by
  induction events using List.reverseRecOn with
  | nil => exact ⟨h, rfl, fun _ => rfl⟩
  | append_singleton events event ih =>
    rw [considerAll_concat]
    have hstep := ih.retained.considerEvent crates event
    refine ⟨hstep.retained, hstep.graph_eq.trans ih.graph_eq, fun hflag => ?_⟩
    obtain ⟨hbefore, hnow⟩ := Bool.or_eq_false_iff.mp hflag
    exact (hstep.ratings_eq hnow).trans (ih.ratings_eq hbefore)

end Consider

/-! ## The graph -/

section Graph

variable {crates : SocialCrates π γ} {config : Config} {before nowSecs : ℕ} {s : PeerReputation π γ}

/-- The graph is the seeded one with the retained ratings of authorized raters applied. -/
def Current (crates : SocialCrates π γ) (s : PeerReputation π γ) : Prop :=
  crates.applyRatings (authorizedRatings s.config s.latest) = .ok s.graph

/-- The graph is current as far as the ratings can be applied. -/
def CurrentIfApplied (crates : SocialCrates π γ) (s : PeerReputation π γ) : Prop :=
  ∀ graph, crates.applyRatings (authorizedRatings s.config s.latest) = .ok graph → s.graph = graph

theorem rebuild_fields (s : PeerReputation π γ) :
    (s.rebuild crates).2 = { s with graph := (s.rebuild crates).2.graph } := by
  unfold PeerReputation.rebuild
  split <;> rfl

/-- Projecting the graph makes it current, unless the ratings cannot be applied. -/
theorem currentIfApplied_rebuild (s : PeerReputation π γ) :
    CurrentIfApplied crates (s.rebuild crates).2 := by
  intro graph happly
  rw [rebuild_fields] at happly
  rw [PeerReputation.rebuild, happly]

theorem current_rebuild (hok : (s.rebuild crates).1.isOk = true) :
    Current crates (s.rebuild crates).2 := by
  unfold PeerReputation.rebuild at hok ⊢
  split at hok
  · next graph happly =>
    exact happly
  · cases hok

theorem Retained.setGraph (h : Retained config nowSecs s) (graph : γ) :
    Retained config nowSecs { s with graph } :=
  ⟨h.config_eq, h.counted, h.positive, h.within, h.rater_eq, h.time_valid, h.scheduled⟩

theorem Retained.refresh (crates : SocialCrates π γ) (h : Retained config before s)
    (hle : before ≤ nowSecs) (events : List Event) :
    Retained config nowSecs (Reputation.refresh crates events nowSecs s).2 := by
  have hconsidered := ((h.pruneMemory hle).considerAll crates events).retained
  unfold Reputation.refresh
  simp only
  split
  · rw [rebuild_fields]
    exact hconsidered.setGraph _
  · exact hconsidered

/-- A call that does not project the graph leaves it and the ratings to project alone. -/
theorem Retained.unchanged (h : Retained config before s) (hle : before ≤ nowSecs)
    {events : List Event}
    (hskip : ¬(0 < (s.pruneMemory nowSecs).1 ∨
      ((s.pruneMemory nowSecs).2.considerAll crates events nowSecs).1.2 = true)) :
    ((s.pruneMemory nowSecs).2.considerAll crates events nowSecs).2.graph = s.graph ∧
      authorizedRatings config ((s.pruneMemory nowSecs).2.considerAll crates events nowSecs).2.latest
        = authorizedRatings config s.latest := by
  rw [not_or, Nat.not_lt, Nat.le_zero, Bool.not_eq_true] at hskip
  have hconsidered := (h.pruneMemory hle).considerAll crates events
  refine ⟨hconsidered.graph_eq.trans (graph_pruneMemory nowSecs s), ?_⟩
  rw [hconsidered.ratings_eq hskip.2, latest_of_pruneMemory_eq_zero hskip.1]

/-- A call that returns no error leaves the graph current. -/
theorem Current.refresh (hcurrent : Current crates s) (h : Retained config before s)
    (hle : before ≤ nowSecs) {events : List Event}
    (hok : (Reputation.refresh crates events nowSecs s).1.isOk = true) :
    Current crates (Reputation.refresh crates events nowSecs s).2 := by
  have hretained := h.refresh crates hle events
  unfold Reputation.refresh at hok hretained ⊢
  simp only at hok hretained ⊢
  split at hok
  · next hproject =>
    rw [if_pos hproject]
    exact current_rebuild hok
  · next hskip =>
    rw [if_neg hskip] at hretained ⊢
    obtain ⟨hgraph, hratings⟩ := h.unchanged hle hskip
    unfold Current at hcurrent ⊢
    rw [hretained.config_eq, hratings, hgraph, ← h.config_eq]
    exact hcurrent

/-- A call leaves the graph current as far as the ratings can be applied. -/
theorem CurrentIfApplied.refresh (hcurrent : CurrentIfApplied crates s)
    (h : Retained config before s) (hle : before ≤ nowSecs) (events : List Event) :
    CurrentIfApplied crates (Reputation.refresh crates events nowSecs s).2 := by
  have hretained := h.refresh crates hle events
  unfold Reputation.refresh at hretained ⊢
  simp only at hretained ⊢
  split
  · exact currentIfApplied_rebuild _
  · next hskip =>
    rw [if_neg hskip] at hretained
    obtain ⟨hgraph, hratings⟩ := h.unchanged hle hskip
    intro graph happly
    rw [hretained.config_eq, hratings, ← h.config_eq] at happly
    exact hgraph.trans (hcurrent graph happly)

end Graph

/-! ## Runs -/

section Runs

variable {crates : SocialCrates π γ} {config : Config}

/-- The clock of a run. -/
def Call.clock (call : Call) : Option ℕ := some call.nowSecs

theorem clockedFrom_of_calls {calls : List Call}
    (h : (calls.map Call.nowSecs).Pairwise (· ≤ ·)) :
    Mealy.ClockedFrom Call.clock 0 calls := by
  refine Mealy.clockedFrom_of_pairwise ?_ fun t _ => Nat.zero_le t
  rwa [show Call.clock = some ∘ Call.nowSecs from rfl, ← List.filterMap_map, List.filterMap_some]

theorem reputationAfter_concat (calls : List Call) (call : Call) :
    reputationAfter crates config (calls ++ [call])
      = (refresh crates call.events call.nowSecs (reputationAfter crates config calls)).2 := by
  rw [reputationAfter, Mealy.after_concat]
  exact (call.run_eq_refresh crates _).1

/-- The invariant holds after every run whose times do not go back. -/
theorem retained_reputationAfter {calls : List Call} (h : Mealy.ClockedFrom Call.clock 0 calls) :
    Retained config (Mealy.lastClock Call.clock 0 calls) (reputationAfter crates config calls) := by
  refine Mealy.clocked_invariant (I := Retained config) ?_ (retained_new crates config 0) h
  intro c call s hretained hle
  rw [(call.run_eq_refresh crates s).1]
  exact hretained.refresh crates hle call.events

/-- The graph is current after every run in which no call returned an error. -/
theorem current_reputationAfter (hnone : crates.applyRatings [] = .ok crates.seededGraph)
    {calls : List Call} (h : Mealy.ClockedFrom Call.clock 0 calls)
    (hok : ∀ result ∈ Mealy.outputs (Call.run crates) (PeerReputation.new crates config) calls,
      result.isOk = true) : Current crates (reputationAfter crates config calls) := by
  induction calls using List.reverseRecOn with
  | nil => exact hnone
  | append_singleton calls call ih =>
    obtain ⟨hfront, hle, -⟩ := Mealy.clockedFrom_append.mp h
    rw [Mealy.outputs_concat] at hok
    have hbefore := ih hfront fun result hresult => hok result (List.mem_append_left _ hresult)
    have hcall := hok _ (List.mem_append_right _ List.mem_cons_self)
    rw [(call.run_eq_refresh crates _).2] at hcall
    rw [reputationAfter_concat]
    exact hbefore.refresh (retained_reputationAfter hfront) hle hcall

/-- The counts name exactly the raters of the retained ratings. -/
theorem Retained.entriesByRater_eq_some {nowSecs : ℕ} {s : PeerReputation π γ}
    (h : Retained config nowSecs s) {rater : String} {count : ℕ} :
    s.entriesByRater.lookup rater = some count ↔
      (∃ key ∈ s.latest, key.rater = rater) ∧
        count = (s.latest.keys.filter fun key => key.rater = rater).card := by
  have hcounted := h.counted rater
  have hoccurs : (∃ key ∈ s.latest, key.rater = rater) ↔
      (s.latest.keys.filter fun key => key.rater = rater).card ≠ 0 := by
    rw [Finset.card_ne_zero]
    constructor
    · rintro ⟨key, hmem, hrater⟩
      exact ⟨key, Finset.mem_filter.mpr ⟨Finmap.mem_keys.mpr hmem, hrater⟩⟩
    · rintro ⟨key, hkey⟩
      obtain ⟨hmem, hrater⟩ := Finset.mem_filter.mp hkey
      exact ⟨key, Finmap.mem_keys.mp hmem, hrater⟩
  rw [hoccurs, ← hcounted]
  have hpositive := h.positive rater
  cases hlookup : s.entriesByRater.lookup rater with
  | none => simp
  | some n =>
    rw [Option.getD_some]
    constructor
    · rintro ⟨⟩
      exact ⟨fun hzero => hpositive (by rw [hlookup, hzero]), rfl⟩
    · rintro ⟨-, rfl⟩
      rfl

/-- The shared projection is never stale. After every call of a run whose times do not go back and
in which no call returned an error: the graph is the seeded one with exactly the retained ratings of
authorized raters applied; the counts name the raters of the retained ratings, each with its number;
the limits are kept; every retained rating is within the age and future-skew window at the time of
the call; and before the next deadline the body of the prune would change nothing but that
deadline. -/
theorem reputation_never_stale (crates : SocialCrates π γ)
    (hnone : crates.applyRatings [] = .ok crates.seededGraph) (config : Config)
    (calls : List Call) (call : Call)
    (hclock : ((calls ++ [call]).map Call.nowSecs).Pairwise (· ≤ ·))
    (hok : ∀ result ∈ Mealy.outputs (Call.run crates) (PeerReputation.new crates config)
      (calls ++ [call]), result.isOk = true) :
    let s := reputationAfter crates config (calls ++ [call])
    crates.applyRatings (authorizedRatings config s.latest) = .ok s.graph ∧
    (∀ rater count, s.entriesByRater.lookup rater = some count ↔
      (∃ key ∈ s.latest, key.rater = rater) ∧
        count = (s.latest.keys.filter fun key => key.rater = rater).card) ∧
    (s.latest.size ≤ peerRatingMaxEntries ∧ ∀ rater,
      (s.latest.keys.filter fun key => key.rater = rater).card ≤ peerRatingMaxEntriesPerRater) ∧
    (∀ key stored, s.latest.lookup key = some stored →
      ratingTimeIsValid stored.rating.createdAt call.nowSecs = true) ∧
    (∀ nowSecs, call.nowSecs ≤ nowSecs →
      s.nextPruneAtSecs.all (fun next => decide (nowSecs < next)) = true →
      ∃ nextPruneAtSecs, pruneBody nowSecs s = (0, { s with nextPruneAtSecs })) := by
  have hclocked := clockedFrom_of_calls hclock
  have hretained := @retained_reputationAfter π γ crates config _ hclocked
  have hlast : Mealy.lastClock Call.clock 0 (calls ++ [call]) = call.nowSecs := by
    simp [Mealy.lastClock, Call.clock]
  rw [hlast] at hretained
  have hcurrent := current_reputationAfter hnone hclocked hok
  unfold Current at hcurrent
  rw [hretained.config_eq] at hcurrent
  have hwithin := hretained.within
  rw [Config.Overflows, Overflow, not_or, not_exists, not_lt, image_ranksOf] at hwithin
  refine ⟨hcurrent, fun _ _ => hretained.entriesByRater_eq_some, ⟨hwithin.2, fun rater => ?_⟩,
    hretained.time_valid, fun _ hle hskip => hretained.pruneBody_of_skipped hle hskip⟩
  have hrater := not_lt.mp (hwithin.1 rater)
  rwa [pairsOf_eq, image_ranksOf] at hrater

/-- A run of all three calls. -/
theorem reputation_never_stale_two :
    let calls := [Call.ingest ratingA 3, .replay [ratingB, ratingA] 4]
    let s := reputationAfter ratingCrates ownConfig (calls ++ [.prune 5])
    ratingCrates.applyRatings (authorizedRatings ownConfig s.latest) = .ok s.graph ∧
      s.graph.map Rating.rest = [80] :=
  ⟨(reputation_never_stale ratingCrates rfl ownConfig
    [Call.ingest ratingA 3, .replay [ratingB, ratingA] 4] (.prune 5) (by decide)
    (by decide +kernel)).1, by decide +kernel⟩

end Runs

end NostrPubsub.Reputation
