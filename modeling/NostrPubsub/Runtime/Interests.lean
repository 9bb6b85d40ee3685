import NostrPubsub.Fips.WireSpelling
import NostrPubsub.Runtime.EventStore
import NostrPubsub.ToMathlib.Buckets

/-!
# The index of interests

`RuntimeInterests` (`ts/packages/nostr-pubsub/src/runtime-interests.ts`): the listeners of the
runtime in buckets, by a part of their filters, so that `ingest` looks at few of them for an event.
A filter names the buckets of its listener by one of its criteria. An event names buckets by its id,
its author, its kind and its tags, but not by tags with an empty name or value: a filter that is
kept under such a tag is not found.
-/

namespace NostrPubsub.Runtime

open NostrPubsub.Fips

/-- `NostrFilter`, with its time window. -/
structure RuntimeFilter extends NostrFilter where
  since : Option ℕ := none
  until_ : Option ℕ := none
  deriving DecidableEq

/-- `matchFilter`, by the criteria of NIP-01. -/
def RuntimeFilter.matchEvent (filter : RuntimeFilter) (event : Event) : Bool :=
  filter.meets event && filter.since.all (· ≤ event.createdAt)
    && filter.until_.all (event.createdAt ≤ ·)

/-- `matchFilters`. -/
def matchFilters (filters : List RuntimeFilter) (event : Event) : Bool :=
  filters.any fun filter => filter.matchEvent event

/-! ## Keys -/

/-- The length of a string in JavaScript. -/
def jsLength (text : String) : ℕ := (codeUnits text).length

/-- The list is there and not empty, and its texts have the length of hexadecimal ids. -/
def fullIds (texts : Option (List String)) : Option (List String) :=
  texts.filter fun texts => !texts.isEmpty && texts.all fun text => jsLength text = 64

/-- The shortest of the tag criteria that have a value, the first of them if there are several. -/
def chosenTag (filter : RuntimeFilter) : Option (String × List String) :=
  ((filter.tags.filter fun criterion => !criterion.2.isEmpty).mergeSort fun a b =>
    a.2.length ≤ b.2.length).head?

/-- The key of a tag. -/
def tagKey (name value : String) : String := "tag:" ++ name ++ ":" ++ value

/-- `candidateKeys`. -/
def candidateKeys (filter : RuntimeFilter) : List String :=
  match fullIds filter.ids, chosenTag filter, fullIds filter.authors,
    filter.kinds.filter fun kinds => !kinds.isEmpty with
  | some ids, _, _, _ => ids.map fun id => "id:" ++ id
  | none, some tagged, _, _ => tagged.2.map fun value => tagKey tagged.1 value
  | none, none, some authors, _ => authors.map fun author => "author:" ++ author
  | none, none, none, some kinds => kinds.map fun kind => "kind:" ++ toString kind
  | none, none, none, none => ["*"]

/-- The key that a tag of an event names. -/
def tagKeyOf : List String → Option String
  | name :: value :: _ => if name ≠ "" ∧ value ≠ "" then some (tagKey name value) else none
  | _ => none

/-- The keys that an event names. -/
def eventKeys (event : Event) : List String :=
  ["*", "id:" ++ event.id.toHex, "author:" ++ pubkeyText event, "kind:" ++ toString event.kind] ++
    event.tags.filterMap tagKeyOf

/-! ## The index -/

variable {τ : Type} [DecidableEq τ]

variable (τ) in
/-- `RuntimeInterests`. -/
structure RuntimeInterests where
  buckets : Finmap fun _ : String => Finset τ := ∅
  memberships : Finmap fun _ : τ => List String := ∅

namespace RuntimeInterests

/-- `RuntimeInterests.add`. -/
def add (interests : RuntimeInterests τ) (value : τ) (filters : List RuntimeFilter) :
    RuntimeInterests τ :=
  let keys := (filters.flatMap candidateKeys).dedup
  { buckets := interests.buckets.addToAll value keys
    memberships := interests.memberships.insert value keys }

/-- `RuntimeInterests.remove`; `none` is a bucket that is not there. -/
def remove (interests : RuntimeInterests τ) (value : τ) : Option (RuntimeInterests τ) :=
  (interests.buckets.dropFromAll value ((interests.memberships.lookup value).getD [])).map
    fun buckets => { buckets, memberships := interests.memberships.erase value }

/-- `RuntimeInterests.candidates`. -/
def candidates (interests : RuntimeInterests τ) (event : Event) : Finset τ :=
  (eventKeys event).foldl (fun result key => result ∪ interests.buckets.bucket key) ∅

/-! ## Runs -/

variable (τ) in
/-- A call. -/
inductive Op where
  | add (value : τ) (filters : List RuntimeFilter)
  | remove (value : τ)

def step (interests : RuntimeInterests τ) : Op τ → Option (RuntimeInterests τ)
  | .add value filters => some (interests.add value filters)
  | .remove value => interests.remove value

/-- A new index after some calls, if none of them fails. -/
def run (ops : List (Op τ)) : Option (RuntimeInterests τ) := ops.foldlM step {}

/-- The values that are added. -/
def added : List (Op τ) → List τ
  | [] => []
  | .add value _ :: ops => value :: added ops
  | .remove _ :: ops => added ops

/-- The value was added with these filters. -/
def Added (ops : List (Op τ)) (value : τ) (filters : List RuntimeFilter) : Prop :=
  .add value filters ∈ ops

/-- The value was added with these filters, and not removed after that. -/
def Registered (ops : List (Op τ)) (value : τ) (filters : List RuntimeFilter) : Prop :=
  ∃ before after, ops = before ++ .add value filters :: after ∧ .remove value ∉ after

/-- Buckets and memberships are the two sides of one relation, and no bucket is empty. -/
structure Inverse (interests : RuntimeInterests τ) : Prop where
  mem_bucket : ∀ value key, value ∈ interests.buckets.bucket key ↔
    ∃ keys, interests.memberships.lookup value = some keys ∧ key ∈ keys
  nodup : ∀ value keys, interests.memberships.lookup value = some keys → keys.Nodup
  noEmptyBucket : interests.buckets.NoEmptyBucket

variable {interests : RuntimeInterests τ} {value : τ} {filters : List RuntimeFilter} {event : Event}
  {ops : List (Op τ)}

/-! ### Steps -/

theorem inverse_empty : Inverse ({} : RuntimeInterests τ) where
  mem_bucket value key := by
    rw [Finmap.bucket_empty, Finmap.lookup_empty]
    simp
  nodup value keys h := by
    rw [Finmap.lookup_empty] at h
    cases h
  noEmptyBucket := Finmap.noEmptyBucket_empty

/-- A new value goes into the buckets of its keys. -/
theorem Inverse.add (h : Inverse interests) (hnew : interests.memberships.lookup value = none)
    (filters : List RuntimeFilter) : Inverse (interests.add value filters) where
  mem_bucket v key := by
    show v ∈ (interests.buckets.addToAll value _).bucket key ↔
      ∃ keys, (interests.memberships.insert value _).lookup v = some keys ∧ key ∈ keys
    rw [Finmap.mem_bucket_addToAll, h.mem_bucket]
    by_cases hv : v = value
    · subst hv
      rw [hnew, Finmap.lookup_insert]
      simp
    · rw [Finmap.lookup_insert_of_ne _ hv]
      simp [hv]
  nodup v keys hkeys := by
    rcases Finmap.lookup_insert_eq_some.mp hkeys with ⟨-, rfl⟩ | ⟨-, hold⟩
    · exact List.nodup_dedup _
    · exact h.nodup v keys hold
  noEmptyBucket := h.noEmptyBucket.addToAll value _

/-- A value goes out of the buckets of its keys, all of which are there. -/
theorem Inverse.exists_remove (h : Inverse interests) (value : τ) :
    ∃ next, interests.remove value = some next ∧ Inverse next ∧
      next.memberships = interests.memberships.erase value := by
  set keys := (interests.memberships.lookup value).getD [] with hkeys
  have hnodup : keys.Nodup := by
    cases hlookup : interests.memberships.lookup value with
    | none => simp [hkeys, hlookup]
    | some found =>
      rw [hkeys, hlookup]
      exact h.nodup value found hlookup
  have hmem : ∀ key, key ∈ keys ↔ value ∈ interests.buckets.bucket key := by
    intro key
    rw [h.mem_bucket]
    cases hlookup : interests.memberships.lookup value with
    | none => simp [hkeys, hlookup]
    | some found => simp [hkeys, hlookup]
  obtain ⟨buckets, hdrop, hnoempty, hbuckets⟩ :=
    Finmap.exists_dropFromAll hnodup (fun key hkey => (hmem key).mp hkey) h.noEmptyBucket
  refine ⟨{ buckets, memberships := interests.memberships.erase value }, ?_, ?_, rfl⟩
  · rw [remove, ← hkeys, hdrop]
    rfl
  · refine ⟨fun v key => ?_, fun v found hfound => ?_, hnoempty⟩
    · show v ∈ buckets.bucket key ↔ _
      rw [hbuckets, h.mem_bucket]
      by_cases hv : v = value
      · subst hv
        rw [Finmap.lookup_erase, hmem, h.mem_bucket]
        simp
      · rw [Finmap.lookup_erase_ne hv]
        simp [hv]
    · exact h.nodup v found (Finmap.lookup_erase_eq_some.mp hfound).2

/-! ### Runs -/

omit [DecidableEq τ] in
theorem registered_concat {op : Op τ} :
    Registered (ops ++ [op]) value filters ↔
      op = .add value filters ∨ Registered ops value filters ∧ op ≠ .remove value := by
  constructor
  · rintro ⟨before, after, hops, hafter⟩
    rcases List.eq_nil_or_concat after with rfl | ⟨after, last, rfl⟩
    · obtain ⟨-, hop⟩ := List.append_inj' hops rfl
      exact .inl (List.singleton_inj.mp hop)
    · rw [List.concat_eq_append] at hafter
      rw [List.concat_eq_append, ← List.cons_append, ← List.append_assoc] at hops
      obtain ⟨hbefore, hop⟩ := List.append_inj' hops rfl
      obtain rfl := List.singleton_inj.mp hop
      rw [List.mem_append, List.mem_singleton, not_or] at hafter
      exact .inr ⟨⟨before, after, hbefore, hafter.1⟩, Ne.symm hafter.2⟩
  · rintro (rfl | ⟨⟨before, after, rfl, hafter⟩, hop⟩)
    · exact ⟨ops, [], rfl, List.not_mem_nil⟩
    · refine ⟨before, after ++ [op], by simp, ?_⟩
      rw [List.mem_append, List.mem_singleton, not_or]
      exact ⟨hafter, Ne.symm hop⟩

omit [DecidableEq τ] in
theorem Registered.added (h : Registered ops value filters) : Added ops value filters := by
  obtain ⟨before, after, rfl, -⟩ := h
  exact List.mem_append_right _ List.mem_cons_self

omit [DecidableEq τ] in
theorem added_append (ops more : List (Op τ)) : added (ops ++ more) = added ops ++ added more := by
  induction ops with
  | nil => rfl
  | cons op ops ih =>
    cases op with
    | add value filters => rw [List.cons_append, added, added, ih, List.cons_append]
    | remove value => rw [List.cons_append, added, added, ih]

omit [DecidableEq τ] in
theorem Added.mem_added (h : Added ops value filters) : value ∈ added ops := by
  obtain ⟨before, after, rfl⟩ := List.append_of_mem h
  rw [added_append, added]
  exact List.mem_append_right _ List.mem_cons_self

omit [DecidableEq τ] in
/-- A value that is added once has one list of filters. -/
theorem Added.unique (hadded : (added ops).Nodup) {filters' : List RuntimeFilter}
    (h : Added ops value filters) (h' : Added ops value filters') : filters = filters' := by
  obtain ⟨before, after, rfl⟩ := List.append_of_mem h
  rw [added_append, added, List.nodup_append] at hadded
  obtain ⟨-, hafter, hdisjoint⟩ := hadded
  rcases List.mem_append.mp h' with hmem | hmem
  · exact absurd rfl (hdisjoint value (Added.mem_added hmem) value List.mem_cons_self)
  · rcases List.mem_cons.mp hmem with heq | hmem
    · cases heq
      rfl
    · exact absurd (Added.mem_added hmem) (List.nodup_cons.mp hafter).1

/-- A run does not fail, and its index is that of the values that are registered. -/
theorem exists_run (hadded : (added ops).Nodup) :
    ∃ interests, run ops = some interests ∧ Inverse interests ∧
      ∀ value keys, interests.memberships.lookup value = some keys ↔
        ∃ filters, Registered ops value filters ∧ keys = (filters.flatMap candidateKeys).dedup := by
  induction ops using List.reverseRecOn with
  | nil =>
    refine ⟨{}, rfl, inverse_empty, fun value keys => ?_⟩
    rw [Finmap.lookup_empty]
    simp [Registered]
  | append_singleton ops op ih =>
    rw [added_append, List.nodup_append] at hadded
    obtain ⟨hbefore, -, hfresh⟩ := hadded
    obtain ⟨interests, hrun, hinverse, hmemberships⟩ := ih hbefore
    have hstep : run (ops ++ [op]) = interests.step op := by
      rw [run] at hrun
      rw [run, List.foldlM_append, hrun, Option.bind_eq_bind, Option.bind_some, List.foldlM_cons]
      cases interests.step op with
      | none => rfl
      | some next => rfl
    cases op with
    | add value filters =>
      -- A value is added once, so it has not been registered before.
      have hunknown : ∀ fs, ¬ Registered ops value fs := fun fs hregistered =>
        hfresh value hregistered.added.mem_added value List.mem_cons_self rfl
      have hnew : interests.memberships.lookup value = none := by
        by_contra hknown
        obtain ⟨keys, hkeys⟩ := Option.ne_none_iff_exists'.mp hknown
        obtain ⟨fs, hregistered, -⟩ := (hmemberships value keys).mp hkeys
        exact hunknown fs hregistered
      refine ⟨_, hstep, hinverse.add hnew filters, fun v keys => ?_⟩
      show (interests.memberships.insert value _).lookup v = some keys ↔ _
      simp only [registered_concat, Op.add.injEq, ne_eq, reduceCtorEq, not_false_eq_true, and_true]
      by_cases hv : v = value
      · subst hv
        rw [Finmap.lookup_insert, Option.some.injEq]
        constructor
        · rintro rfl
          exact ⟨filters, .inl ⟨rfl, rfl⟩, rfl⟩
        · rintro ⟨fs, ⟨-, rfl⟩ | hregistered, rfl⟩
          · rfl
          · exact absurd hregistered (hunknown fs)
      · rw [Finmap.lookup_insert_of_ne _ hv, hmemberships]
        simp [Ne.symm hv]
    | remove value =>
      obtain ⟨next, hnext, hinverse', hmemberships'⟩ := hinverse.exists_remove value
      refine ⟨next, hstep.trans hnext, hinverse', fun v keys => ?_⟩
      rw [hmemberships']
      simp only [registered_concat, reduceCtorEq, false_or, ne_eq, Op.remove.injEq]
      by_cases hv : v = value
      · subst hv
        rw [Finmap.lookup_erase]
        simp
      · rw [Finmap.lookup_erase_ne hv, hmemberships]
        simp [Ne.symm hv]

/-! ## Candidates -/

theorem mem_candidates :
    value ∈ interests.candidates event ↔ ∃ key ∈ eventKeys event, value ∈ interests.buckets.bucket key := by
  have hfold : ∀ (keys : List String) (result : Finset τ),
      value ∈ keys.foldl (fun result key => result ∪ interests.buckets.bucket key) result ↔
        value ∈ result ∨ ∃ key ∈ keys, value ∈ interests.buckets.bucket key := by
    intro keys
    induction keys with
    | nil => simp
    | cons key keys ih =>
      intro result
      rw [List.foldl_cons, ih, Finset.mem_union]
      simp [or_assoc]
  rw [candidates, hfold]
  simp

/-- The event names a key of one of the filters. -/
def Named (filters : List RuntimeFilter) (event : Event) : Prop :=
  ∃ key ∈ filters.flatMap candidateKeys, key ∈ eventKeys event

/-- The filter is kept under a tag, and the event meets it by tags with an empty name or value. -/
def HiddenFrom (filter : RuntimeFilter) (event : Event) : Prop :=
  fullIds filter.ids = none ∧ ∃ name values, chosenTag filter = some (name, values) ∧
    ∀ tag ∈ event.tags, ∀ value, tag[0]? = some name → tag[1]? = some value → value ∈ values →
      name = "" ∨ value = ""

/-- The filters match the event, but only those that are hidden from it, and it names none of their
keys. -/
structure Overlooked (filters : List RuntimeFilter) (event : Event) : Prop where
  matched : matchFilters filters event = true
  hidden : ∀ filter ∈ filters, filter.matchEvent event = true → HiddenFrom filter event
  unnamed : ¬ Named filters event

omit [DecidableEq τ] in
theorem mem_of_fullIds {texts : Option (List String)} {ids : List String}
    (h : fullIds texts = some ids) : texts = some ids := by
  rw [fullIds, Option.filter_eq_some_iff] at h
  exact h.1

/-- A tag with a name and a value names its key. -/
theorem tagKeyOf_eq {tag : List String} {name value : String} (hname : tag[0]? = some name)
    (hvalue : tag[1]? = some value) (hnonempty : name ≠ "" ∧ value ≠ "") :
    tagKeyOf tag = some (tagKey name value) := by
  match tag with
  | first :: second :: _ =>
    obtain rfl := Option.some.inj hname
    obtain rfl := Option.some.inj hvalue
    rw [tagKeyOf, if_pos hnonempty]

/-- A filter that matches an event is hidden from it, or the event names one of its keys. -/
theorem hiddenFrom_or_named {filter : RuntimeFilter} (h : filter.matchEvent event = true) :
    HiddenFrom filter event ∨ ∃ key ∈ candidateKeys filter, key ∈ eventKeys event := by
  rw [RuntimeFilter.matchEvent, NostrFilter.meets] at h
  simp only [Bool.and_eq_true] at h
  obtain ⟨⟨⟨⟨⟨hids, hauthors⟩, hkinds⟩, htags⟩, -⟩, -⟩ := h
  -- The keys of a filter come from its first usable part: ids, a tag, authors, kinds, or nothing.
  cases hfull : fullIds filter.ids with
  | some ids =>
    right
    rw [mem_of_fullIds hfull, Option.all_some, decide_eq_true_eq] at hids
    refine ⟨"id:" ++ event.id.toHex, ?_, by simp [eventKeys]⟩
    rw [candidateKeys, hfull]
    exact List.mem_map_of_mem hids
  | none =>
    cases htag : chosenTag filter with
    | some tagged =>
      obtain ⟨name, values⟩ := tagged
      -- A tag with an empty name or value has no key in the index, although the filter matches it.
      by_cases hhidden : ∀ tag ∈ event.tags, ∀ value, tag[0]? = some name → tag[1]? = some value →
          value ∈ values → name = "" ∨ value = ""
      · exact .inl ⟨hfull, name, values, htag, hhidden⟩
      · right
        push Not at hhidden
        obtain ⟨tag, htagmem, value, hname, hvalue, hmem, hnonempty⟩ := hhidden
        have hkey : tagKeyOf tag = some (tagKey name value) := tagKeyOf_eq hname hvalue hnonempty
        refine ⟨tagKey name value, ?_, ?_⟩
        · rw [candidateKeys, hfull, htag]
          exact List.mem_map_of_mem hmem
        · exact List.mem_append_right _ (List.mem_filterMap.mpr ⟨tag, htagmem, hkey⟩)
    | none =>
      right
      cases hauthor : fullIds filter.authors with
      | some authors =>
        rw [mem_of_fullIds hauthor, Option.all_some, decide_eq_true_eq] at hauthors
        refine ⟨"author:" ++ pubkeyText event, ?_, by simp [eventKeys]⟩
        rw [candidateKeys, hfull, htag, hauthor]
        exact List.mem_map_of_mem hauthors
      | none =>
        cases hkind : filter.kinds.filter fun kinds => !kinds.isEmpty with
        | some kinds =>
          rw [(Option.filter_eq_some_iff.mp hkind).1, Option.all_some, decide_eq_true_eq] at hkinds
          refine ⟨"kind:" ++ toString event.kind, ?_, by simp [eventKeys]⟩
          rw [candidateKeys, hfull, htag, hauthor, hkind]
          exact List.mem_map.mpr ⟨event.kind, hkinds, rfl⟩
        | none =>
          refine ⟨"*", ?_, by simp [eventKeys]⟩
          rw [candidateKeys, hfull, htag, hauthor, hkind]
          exact List.mem_singleton_self _

/-- The candidates for an event are the registered values of whose keys it names one. -/
theorem mem_candidates_iff (value : τ) (event : Event) (hinverse : Inverse interests)
    (hmemberships : ∀ value keys, interests.memberships.lookup value = some keys ↔
      ∃ filters, Registered ops value filters ∧ keys = (filters.flatMap candidateKeys).dedup) :
    value ∈ interests.candidates event ↔
      ∃ filters, Registered ops value filters ∧ Named filters event := by
  rw [mem_candidates]
  constructor
  · rintro ⟨key, hkey, hbucket⟩
    obtain ⟨keys, hkeys, hmem⟩ := (hinverse.mem_bucket value key).mp hbucket
    obtain ⟨filters, hregistered, rfl⟩ := (hmemberships value keys).mp hkeys
    exact ⟨filters, hregistered, key, List.mem_dedup.mp hmem, hkey⟩
  · rintro ⟨filters, hregistered, key, hmem, hkey⟩
    refine ⟨key, hkey, (hinverse.mem_bucket value key).mpr ⟨_, ?_, List.mem_dedup.mpr hmem⟩⟩
    exact (hmemberships value _).mpr ⟨filters, hregistered, rfl⟩

/-- Filters are overlooked if they match an event that names none of their keys. -/
theorem overlooked_iff :
    Overlooked filters event ↔ matchFilters filters event = true ∧ ¬ Named filters event := by
  refine ⟨fun h => ⟨h.matched, h.unnamed⟩, fun ⟨hmatch, hunnamed⟩ => ⟨hmatch, ?_, hunnamed⟩⟩
  intro filter hfilter hmeets
  refine (hiddenFrom_or_named hmeets).resolve_right ?_
  rintro ⟨key, hmem, hkey⟩
  exact hunnamed ⟨key, List.mem_flatMap.mpr ⟨filter, hfilter, hmem⟩, hkey⟩

/-- An event whose tags all have a name and a value overlooks no filters. -/
theorem not_overlooked_of_tags
    (htags : ∀ tag ∈ event.tags, ∀ name value, tag[0]? = some name → tag[1]? = some value →
      name ≠ "" ∧ value ≠ "") : ¬ Overlooked filters event := by
  intro h
  obtain ⟨filter, hfilter, hmatch⟩ := List.any_eq_true.mp h.matched
  obtain ⟨-, name, values, hchosen, hempty⟩ := h.hidden filter hfilter hmatch
  -- the event meets the chosen criterion by a tag that has a name and a value
  have hcriterion : (name, values) ∈ filter.tags :=
    List.mem_of_mem_filter (List.mem_mergeSort.mp (List.mem_of_head? hchosen))
  rw [RuntimeFilter.matchEvent, NostrFilter.meets] at hmatch
  simp only [Bool.and_eq_true, List.all_eq_true] at hmatch
  obtain ⟨tag, htag, hmeets⟩ := List.any_eq_true.mp (hmatch.1.1.2 (name, values) hcriterion)
  obtain ⟨hname, hvalue⟩ := Bool.and_eq_true_iff.mp hmeets
  obtain ⟨value, hsecond, hmem⟩ := (Option.any_eq_true _ _).mp hvalue
  obtain ⟨hfirst, hlast⟩ := htags tag htag name value (of_decide_eq_true hname) hsecond
  exact (hempty tag htag value (of_decide_eq_true hname) hsecond (of_decide_eq_true hmem)).elim
    hfirst hlast

/-- Filters that match an event and are not overlooked by it have a key that it names. -/
theorem named_of_not_overlooked (hmatch : matchFilters filters event = true)
    (h : ¬ Overlooked filters event) : Named filters event := by
  by_contra hunnamed
  exact h (overlooked_iff.mpr ⟨hmatch, hunnamed⟩)

/-- The index and a scan of all listeners find the same ones for an event. -/
def AgreesWithScan (ops : List (Op τ)) (interests : RuntimeInterests τ) (event : Event) : Prop :=
  ∀ value,
    (value ∈ interests.candidates event ∧
      ∃ filters, Added ops value filters ∧ matchFilters filters event = true) ↔
    ∃ filters, Registered ops value filters ∧ matchFilters filters event = true

/-- The two sides of the index agree after every run, which does not fail; and the index agrees with a
scan for an event if and only if the event overlooks none of the registered values. -/
theorem agreesWithScan_iff (hadded : (added ops).Nodup) :
    ∃ interests, run ops = some interests ∧ Inverse interests ∧
      ∀ event, AgreesWithScan ops interests event ↔
        ∀ value filters, Registered ops value filters → ¬ Overlooked filters event := by
  obtain ⟨interests, hrun, hinverse, hmemberships⟩ := exists_run hadded
  have hcandidates := fun value event =>
    mem_candidates_iff value event hinverse hmemberships
  refine ⟨interests, hrun, hinverse, fun event => ⟨fun hagrees => ?_, fun hnone => ?_⟩⟩
  · intro value filters hregistered hoverlooked
    have hfound := ((hagrees value).mpr ⟨filters, hregistered, hoverlooked.matched⟩).1
    obtain ⟨filters', hregistered', hnamed⟩ := (hcandidates value event).mp hfound
    have hsame := Added.unique hadded hregistered.added hregistered'.added
    exact hoverlooked.unnamed (hsame ▸ hnamed)
  · intro value
    constructor
    · rintro ⟨hfound, filters, hfilters, hmatch⟩
      obtain ⟨filters', hregistered, -⟩ := (hcandidates value event).mp hfound
      rw [← Added.unique hadded hfilters hregistered.added] at hregistered
      exact ⟨filters, hregistered, hmatch⟩
    · rintro ⟨filters, hregistered, hmatch⟩
      have hnamed := named_of_not_overlooked hmatch (hnone value filters hregistered)
      exact ⟨(hcandidates value event).mpr ⟨filters, hregistered, hnamed⟩, filters,
        hregistered.added, hmatch⟩

/-! ## An addressable event without identifier -/

/-- Signed application data whose identifier is empty. -/
def unnamedData : Event where
  id :=
    ⟨[249, 176, 192, 160, 184, 40, 3, 252, 1, 244, 202, 133, 231, 217, 25, 174, 80, 72, 175, 231, 4,
      239, 163, 145, 12, 36, 7, 186, 79, 104, 168, 255], rfl⟩
  pubkey := noteAuthor
  createdAt := 1
  kind := 30078
  tags := [["d", ""]]
  content := "a"
  sig :=
    ⟨[152, 153, 19, 185, 191, 13, 230, 129, 137, 226, 177, 241, 255, 209, 80, 233, 179, 118, 243, 8,
      54, 114, 84, 236, 234, 158, 50, 60, 129, 42, 77, 125, 141, 108, 139, 142, 160, 97, 173, 218,
      110, 168, 113, 240, 123, 22, 157, 51, 230, 184, 81, 4, 184, 242, 145, 216, 116, 20, 210, 230,
      76, 131, 202, 255], rfl⟩

/-- Application data with the identifier. -/
def dataFilter (identifier : String) : RuntimeFilter :=
  { kinds := some [30078], tags := [("d", [identifier])] }

/-- A listener for data without identifier is not found for such data. -/
theorem unnamedData_overlooked :
    let ops := [Op.add "listener" [dataFilter ""]]
    ∃ interests, run ops = some interests ∧ ¬ AgreesWithScan ops interests unnamedData := by
  refine ⟨_, rfl, fun hagrees => ?_⟩
  have hmatch : matchFilters [dataFilter ""] unnamedData = true := by decide +kernel
  have hfound := ((hagrees "listener").mpr
    ⟨[dataFilter ""], ⟨[], [], rfl, List.not_mem_nil⟩, hmatch⟩).1
  revert hfound
  decide +kernel

/-- A listener for all data is found for it, and one for other data is not looked for. -/
theorem agreesWithScan_iff_named :
    let ops := [Op.add "settings" [dataFilter "settings"], .add "data" [{ kinds := some [30078] }],
      .add "other" [{}], .remove "other"]
    ∃ interests, run ops = some interests ∧ Inverse interests ∧
      AgreesWithScan ops interests unnamedData ∧ "data" ∈ interests.candidates unnamedData := by
  intro ops
  obtain ⟨interests, hrun, hinverse, hagrees⟩ := @agreesWithScan_iff String _ ops (by decide)
  have hscan : AgreesWithScan ops interests unnamedData := by
    refine (hagrees unnamedData).mpr fun value filters hregistered hoverlooked => ?_
    have hadded : Op.add value filters ∈ ops := hregistered.added
    simp only [ops, List.mem_cons, Op.add.injEq, reduceCtorEq, List.not_mem_nil, or_false] at hadded
    rcases hadded with ⟨-, rfl⟩ | ⟨-, rfl⟩ | ⟨-, rfl⟩
    · have hother : matchFilters [dataFilter "settings"] unnamedData = false := by decide +kernel
      rw [hoverlooked.matched] at hother
      cases hother
    · exact hoverlooked.unnamed ⟨"kind:30078", by decide +kernel, by decide +kernel⟩
    · exact hoverlooked.unnamed ⟨"*", by decide +kernel, by decide +kernel⟩
  have hmatch : matchFilters [{ kinds := some [30078] }] unnamedData = true := by decide +kernel
  have hfound := (hscan "data").mpr ⟨[{ kinds := some [30078] }],
    ⟨[.add "settings" [dataFilter "settings"]], [.add "other" [{}], .remove "other"], rfl, by simp⟩,
    hmatch⟩
  exact ⟨interests, hrun, hinverse, hscan, hfound.1⟩

end RuntimeInterests

end NostrPubsub.Runtime
