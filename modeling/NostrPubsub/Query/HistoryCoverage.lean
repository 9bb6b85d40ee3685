import NostrPubsub.Query.HistoryTokens

/-!
# Completeness of history pagination

A static source answers the filter of every page with the newest events that match it, up to
the page's limit, and cuts ties as it likes. When every event of an answer is observed before
its page is finished as complete, a cursor that ends `Exhausted` has observed every event the
source holds for the original filter, whatever else was called in between: pages given up,
events delivered twice, events out of scope, tokens of other pages and of other cursors.

- `HistorySource.Answers`: the answers a source may give to a filter;
- `HistoryCursor.Served`: the calls are those of a client of such a source;
- `HistoryCursor.Covered`: the invariant, everything newer than `until` has been observed.
-/

namespace NostrPubsub

/-- A source that does not change while it is paged through. An id names one event. -/
structure HistorySource where
  events : Finset Event
  id_injOn : Set.InjOn Event.id events

namespace HistorySource

/-- The events of the source that match a filter. -/
def matching (source : HistorySource) (filter : Filter) : Finset Event :=
  source.events.filter fun event => filter.matchEvent event

/-- What a source may answer to a filter: as many of the newest matching events as the limit
allows. Which of several events of one second are left out is up to the source. -/
structure Answers (source : HistorySource) (filter : Filter) (answer : Finset Event) : Prop where
  subset : answer ⊆ source.matching filter
  card : answer.card = min (filter.limit.getD 0) (source.matching filter).card
  newest : ∀ event ∈ answer, ∀ other ∈ source.matching filter, other ∉ answer →
    other.createdAt ≤ event.createdAt

theorem mem_matching {source : HistorySource} {filter : Filter} {event : Event} :
    event ∈ source.matching filter ↔ event ∈ source.events ∧ filter.matchEvent event := by
  rw [matching, Finset.mem_filter]

/-- An answer below the limit is everything that matches. -/
theorem Answers.eq_matching {source : HistorySource} {filter : Filter} {answer : Finset Event}
    (h : source.Answers filter answer) (hcard : answer.card < filter.limit.getD 0) :
    answer = source.matching filter := by
  apply Finset.eq_of_subset_of_card_le h.subset
  have := h.card
  omega

end HistorySource

namespace HistoryCursor

variable {nostr : NostrCrate}

/-! ## Clients of a static source -/

/-- An observation of the event returned `true` in the run. -/
def Observed (start : HistoryCursor) (calls : List (Call nostr)) (event : Event) : Prop :=
  ∃ before token query rest, calls = before ++ .observe token query :: rest
    ∧ query.event.event = event ∧ ((start.afterCalls before).observe token query).1 = true

/-- The event was handed to the cursor, as one of its source, while the page was active. -/
def Delivered (start : HistoryCursor) (calls : List (Call nostr)) (token : HistoryPageToken)
    (event : Event) : Prop :=
  ∃ before query rest, calls = before ++ .observe token query :: rest
    ∧ (start.afterCalls before).activeToken = some token
    ∧ query.source.id = start.source ∧ query.event.event = event

/-- A call that a client of the source may make after the calls `before`. The source answers
each page; what is delivered on the page in scope of its filter is from that answer; and a
page is finished as complete once the whole answer has been delivered. Nothing is asked of
calls with other tokens or of events out of scope. -/
def ServedCall (source : HistorySource) (answer : HistoryPageToken → Finset Event)
    (start : HistoryCursor) (before : List (Call nostr)) : Call nostr → Prop
  | .beginPage => ∀ page, (start.afterCalls before).beginPage.1 = some page →
      source.Answers page.filter (answer page.token)
  | .observe token query => (start.afterCalls before).activeToken = some token →
      (start.afterCalls before).InScope query → query.event.event ∈ answer token
  | .finishPage token .complete => (start.afterCalls before).activeToken = some token →
      ∀ event ∈ answer token, start.Delivered before token event
  | _ => True

/-- The calls are those of a client of the source, which answers the page of a token with
`answer token`. -/
def Served (source : HistorySource) (answer : HistoryPageToken → Finset Event)
    (start : HistoryCursor) (calls : List (Call nostr)) : Prop :=
  ∀ before c rest, calls = before ++ c :: rest → ServedCall source answer start before c

variable {source : HistorySource} {answer : HistoryPageToken → Finset Event}
  {start : HistoryCursor} {calls : List (Call nostr)} {c : Call nostr}

theorem Served.of_append {more : List (Call nostr)} (h : Served source answer start (calls ++ more)) :
    Served source answer start calls := by
  intro before c rest heq
  apply h before c (rest ++ more)
  rw [heq, List.append_assoc, List.cons_append]

theorem Served.last (h : Served source answer start (calls ++ [c])) :
    ServedCall source answer start calls c :=
  h calls c [] rfl

theorem Observed.append {event : Event} (h : start.Observed calls event)
    (more : List (Call nostr)) : start.Observed (calls ++ more) event := by
  obtain ⟨before, token, query, rest, rfl, hevent, hnew⟩ := h
  exact ⟨before, token, query, rest ++ more, by simp, hevent, hnew⟩

/-- A delivery of a run with one more call is a delivery of the run, or is that call. -/
theorem Delivered.of_concat {token : HistoryPageToken} {event : Event}
    (h : start.Delivered (calls ++ [c]) token event) :
    start.Delivered calls token event
    ∨ ∃ query, c = .observe token query ∧ (start.afterCalls calls).activeToken = some token
      ∧ query.source.id = start.source ∧ query.event.event = event := by
  obtain ⟨before, query, rest, heq, hactive, hsource, hevent⟩ := h
  rcases List.eq_nil_or_concat rest with rfl | ⟨rest, last, rfl⟩
  · obtain ⟨rfl, hc⟩ := List.append_inj' heq rfl
    rw [List.cons.injEq] at hc
    exact .inr ⟨query, hc.1, hactive, hsource, hevent⟩
  · left
    refine ⟨before, query, rest, ?_, hactive, hsource, hevent⟩
    have hsplit : calls ++ [c] = (before ++ .observe token query :: rest) ++ [last] := by
      simpa using heq
    exact (List.append_inj' hsplit rfl).1

/-! ## The invariant -/

/-- What is recorded of the active page: the events of the answer delivered so far. -/
structure PageCovered (source : HistorySource) (answer : HistoryPageToken → Finset Event)
    (start : HistoryCursor) (calls : List (Call nostr)) (filter : Filter) (page : ActivePage) :
    Prop where
  answers : source.Answers filter (answer page.token)
  /-- What was seen is of the answer, and was observed. -/
  seen : ∀ id ∈ page.seen, ∃ event ∈ answer page.token, event.id = id
    ∧ start.Observed calls event
  /-- What was delivered is seen. -/
  delivered : ∀ event ∈ answer page.token, start.Delivered calls page.token event →
    event.id ∈ page.seen
  oldest_le : ∀ event ∈ answer page.token, event.id ∈ page.seen →
    ∃ oldest, page.oldest = some oldest ∧ oldest ≤ event.createdAt
  oldest_mem : ∀ oldest, page.oldest = some oldest → ∃ event ∈ answer page.token,
    event.createdAt = oldest
  overflow : page.overflow = false

/-- The invariant of a client's run: what is newer than `until` has been observed. -/
structure Covered (source : HistorySource) (answer : HistoryPageToken → Finset Event)
    (start : HistoryCursor) (calls : List (Call nostr)) (cursor : HistoryCursor) : Prop where
  newer : ∀ event ∈ source.events, start.filter.matchEvent event →
    cursor.pageUntil < event.createdAt → start.Observed calls event
  page : ∀ page, cursor.active = some page →
    PageCovered source answer start calls cursor.filter page
  /-- Deliveries are to pages that were begun. -/
  begun : ∀ token event, start.Delivered calls token event → token.page ≤ cursor.generation

/-- Later filters of a cursor differ from its first one in the upper end of the window. -/
theorem Continues.matchEvent_iff {earlier later : HistoryCursor} (h : Continues earlier later)
    (hearlier : WellFormed earlier) (hlater : WellFormed later) (event : Event) :
    later.filter.matchEvent event
      ↔ earlier.filter.matchEvent event ∧ event.createdAt ≤ later.pageUntil := by
  have hle := h.pageUntil_le
  simp only [Filter.matchEvent, h.criteria, h.since, hearlier.until_some, hlater.until_some,
    Option.all_some, Bool.and_eq_true, decide_eq_true_eq]
  constructor
  · rintro ⟨hmatch, htime⟩
    exact ⟨⟨hmatch, htime.trans hle⟩, htime⟩
  · rintro ⟨⟨hmatch, -⟩, htime⟩
    exact ⟨hmatch, htime⟩

/-! ## A page whose whole answer was delivered -/

section Page

variable {filter : Filter} {page : ActivePage}

/-- An event of the answer that was seen was observed: its id names no other event. -/
theorem PageCovered.observed_of_seen (h : PageCovered source answer start calls filter page)
    {event : Event} (hevent : event ∈ answer page.token) (hseen : event.id ∈ page.seen) :
    start.Observed calls event := by
  obtain ⟨other, hother, hid, hobserved⟩ := h.seen _ hseen
  have hmem : ∀ {e : Event}, e ∈ answer page.token → e ∈ source.events :=
    fun he => (HistorySource.mem_matching.mp (h.answers.subset he)).1
  rwa [source.id_injOn (hmem hother) (hmem hevent) hid] at hobserved

/-- The ids seen are ids of the answer. -/
theorem PageCovered.seen_subset (h : PageCovered source answer start calls filter page) :
    page.seen ⊆ (answer page.token).image Event.id := by
  intro id hid
  obtain ⟨event, hevent, rfl, -⟩ := h.seen id hid
  exact Finset.mem_image_of_mem _ hevent

theorem PageCovered.seen_card_le (h : PageCovered source answer start calls filter page) :
    page.seen.card ≤ (answer page.token).card :=
  (Finset.card_le_card h.seen_subset).trans Finset.card_image_le

/-- Once the answer was delivered, as many ids were seen as it has events. -/
theorem PageCovered.seen_card (h : PageCovered source answer start calls filter page)
    (hall : ∀ event ∈ answer page.token, event.id ∈ page.seen) :
    page.seen.card = (answer page.token).card := by
  apply Nat.le_antisymm h.seen_card_le
  have hinj : Set.InjOn Event.id (answer page.token) := by
    apply source.id_injOn.mono
    intro event hevent
    exact (HistorySource.mem_matching.mp (h.answers.subset hevent)).1
  rw [← Finset.card_image_of_injOn hinj]
  apply Finset.card_le_card
  intro id hid
  obtain ⟨event, hevent, rfl⟩ := Finset.mem_image.mp hid
  exact hall event hevent

/-- A page below its limit observed everything that matches. -/
theorem PageCovered.observed_of_matching (h : PageCovered source answer start calls filter page)
    (hall : ∀ event ∈ answer page.token, event.id ∈ page.seen)
    (hcard : page.seen.card < filter.limit.getD 0) {event : Event}
    (hmatch : event ∈ source.matching filter) : start.Observed calls event := by
  rw [h.seen_card hall] at hcard
  rw [← h.answers.eq_matching hcard] at hmatch
  exact h.observed_of_seen hmatch (hall event hmatch)

/-- A page observed everything that is newer than its oldest event. -/
theorem PageCovered.observed_of_newer (h : PageCovered source answer start calls filter page)
    (hall : ∀ event ∈ answer page.token, event.id ∈ page.seen) {oldest : ℕ}
    (holdest : page.oldest = some oldest) {event : Event}
    (hmatch : event ∈ source.matching filter) (hnewer : oldest < event.createdAt) :
    start.Observed calls event := by
  have hanswer : event ∈ answer page.token := by
    by_contra hother
    obtain ⟨last, hlast, htime⟩ := h.oldest_mem oldest holdest
    have hle := h.answers.newest last hlast event hmatch hother
    omega
  exact h.observed_of_seen hanswer (hall event hanswer)

/-- An empty page means that nothing matches. -/
theorem PageCovered.matching_eq_empty (h : PageCovered source answer start calls filter page)
    (hall : ∀ event ∈ answer page.token, event.id ∈ page.seen) (holdest : page.oldest = none)
    (hlimit : 0 < filter.limit.getD 0) : source.matching filter = ∅ := by
  have hempty : answer page.token = ∅ := by
    apply Finset.eq_empty_of_forall_notMem
    intro event hevent
    obtain ⟨oldest, hsome, -⟩ := h.oldest_le event hevent (hall event hevent)
    rw [holdest] at hsome
    cases hsome
  rw [← h.answers.eq_matching (by rw [hempty]; exact hlimit), hempty]

/-- A page whose oldest event is at the upper end of its window lies in that second. -/
theorem PageCovered.createdAt_eq (h : PageCovered source answer start calls filter page)
    (hall : ∀ event ∈ answer page.token, event.id ∈ page.seen) {oldest until_ : ℕ}
    (holdest : page.oldest = some oldest) (hle : until_ ≤ oldest)
    (huntil : filter.until_ = some until_) {event : Event} (hevent : event ∈ answer page.token) :
    event.createdAt = until_ := by
  obtain ⟨first, hfirst, htime⟩ := h.oldest_le event hevent (hall event hevent)
  have hmatch := (HistorySource.mem_matching.mp (h.answers.subset hevent)).2
  rw [Filter.matchEvent, huntil] at hmatch
  simp only [Option.all_some, Bool.and_eq_true, decide_eq_true_eq] at hmatch
  rw [holdest, Option.some.injEq] at hfirst
  have hupper := hmatch.2
  omega

end Page

/-! ## What a finished page shows -/

section Finish

variable {self later : HistoryCursor} {page : ActivePage}
  {completion : HistoryPageCompletion} {status : HistoryPageStatus}

/-- What the cursor knows when a page is settled: what was delivered is seen, and if the page
is complete that is its whole answer. -/
structure Finishing (source : HistorySource) (answer : HistoryPageToken → Finset Event)
    (start : HistoryCursor) (calls : List (Call nostr)) (cursor : HistoryCursor) (page : ActivePage)
    (completion : HistoryPageCompletion) : Prop where
  start_wellFormed : WellFormed start
  wellFormed : WellFormed cursor
  continues : Continues start cursor
  newer : ∀ event ∈ source.events, start.filter.matchEvent event →
    cursor.pageUntil < event.createdAt → start.Observed calls event
  covered : PageCovered source answer start calls cursor.filter page
  all_seen : completion = .complete → ∀ event ∈ answer page.token, event.id ∈ page.seen

/-- An event of the source in scope of the original filter is newer than `until` or matches the
filter of the page. -/
theorem Finishing.newer_or_matching
    (h : Finishing source answer start calls self page completion) {event : Event}
    (hsource : event ∈ source.events) (hmatch : start.filter.matchEvent event) :
    start.Observed calls event ∨ event ∈ source.matching self.filter := by
  by_cases htime : event.createdAt ≤ self.pageUntil
  · right
    refine HistorySource.mem_matching.mpr ⟨hsource, ?_⟩
    exact (h.continues.matchEvent_iff h.start_wellFormed h.wellFormed event).mpr ⟨hmatch, htime⟩
  · exact .inl (h.newer event hsource hmatch (Nat.not_le.mp htime))

/-- What is newer than the `until` of the next page has been observed. -/
theorem Settled.newer (hsettled : Settled self page completion status later)
    (h : Finishing source answer start calls self page completion) {event : Event}
    (hsource : event ∈ source.events) (hmatch : start.filter.matchEvent event)
    (htime : later.pageUntil < event.createdAt) : start.Observed calls event := by
  cases hsettled with
  | overflow _ => exact h.newer event hsource hmatch htime
  | retry _ => exact h.newer event hsource hmatch htime
  | empty _ _ => exact h.newer event hsource hmatch htime
  | advance _ holdest _ =>
    rcases h.newer_or_matching hsource hmatch with hobserved | hpage
    · exact hobserved
    · exact h.covered.observed_of_newer (h.all_seen rfl) holdest hpage htime
  | dense _ _ _ _ _ => exact h.newer event hsource hmatch htime
  | grow _ _ _ _ _ => exact h.newer event hsource hmatch htime
  | floor _ _ _ _ _ => exact h.newer event hsource hmatch htime
  | below _ _ _ hroom _ =>
    rcases h.newer_or_matching hsource hmatch with hobserved | hpage
    · exact hobserved
    · exact h.covered.observed_of_matching (h.all_seen rfl) hroom hpage

/-- A page that ends `Exhausted` leaves nothing unobserved. -/
theorem Settled.exhausted (hsettled : Settled self page completion .exhausted later)
    (h : Finishing source answer start calls self page completion) {event : Event}
    (hsource : event ∈ source.events) (hmatch : start.filter.matchEvent event) :
    start.Observed calls event := by
  rcases h.newer_or_matching hsource hmatch with hobserved | hpage
  · exact hobserved
  cases hsettled with
  | empty _ hnone =>
    have hpos : 0 < self.filter.limit.getD 0 :=
      h.wellFormed.initialLimit_pos.trans_le h.wellFormed.initialLimit_le
    rw [h.covered.matching_eq_empty (h.all_seen rfl) hnone hpos] at hpage
    simp at hpage
  | floor _ _ _ hroom _ => exact h.covered.observed_of_matching (h.all_seen rfl) hroom hpage

/-- A page that ends `Limited` shows a second with at least `max_limit` matching events. -/
theorem Settled.limited (hsettled : Settled self page completion .limited later)
    (h : Finishing source answer start calls self page completion) :
    ∃ time, start.maxLimit
      ≤ ((source.matching start.filter).filter fun event => event.createdAt = time).card := by
  cases hsettled with
  | overflow hoverflow =>
    rw [h.covered.overflow] at hoverflow
    cases hoverflow
  | dense _ holdest hle hfull hmax =>
    refine ⟨self.pageUntil, ?_⟩
    have hall := h.all_seen rfl
    rw [h.covered.seen_card hall, hmax, h.continues.maxLimit] at hfull
    refine hfull.trans (Finset.card_le_card ?_)
    intro event hevent
    have hmatching := HistorySource.mem_matching.mp (h.covered.answers.subset hevent)
    have hstart := h.continues.matchEvent_iff h.start_wellFormed h.wellFormed event
    refine Finset.mem_filter.mpr ⟨HistorySource.mem_matching.mpr ⟨hmatching.1, ?_⟩, ?_⟩
    · exact (hstart.mp hmatching.2).1
    · exact h.covered.createdAt_eq hall holdest hle h.wellFormed.until_some hevent

end Finish

/-! ## The run -/

section Run

variable {self later : HistoryCursor}

/-- Recording further calls keeps what is known of a page, when nothing new is delivered. -/
theorem PageCovered.concat {filter : Filter} {page : ActivePage}
    (h : PageCovered source answer start calls filter page)
    (hdelivered : ∀ event ∈ answer page.token,
      start.Delivered (calls ++ [c]) page.token event → event.id ∈ page.seen) :
    PageCovered source answer start (calls ++ [c]) filter page :=
  { h with
    seen := by
      intro id hid
      obtain ⟨event, hevent, hid, hobserved⟩ := h.seen id hid
      exact ⟨event, hevent, hid, hobserved.append [c]⟩
    delivered := hdelivered }

/-- A page that was just begun. -/
theorem pageCovered_begun (h : Covered source answer start calls self)
    (hanswers : source.Answers self.filter
      (answer { cursor := self.identity, page := self.generation + 1 }))
    (hc : ∀ token query, c ≠ .observe token query) :
    PageCovered source answer start (calls ++ [c]) self.filter
      { token := { cursor := self.identity, page := self.generation + 1 }
        seen := ∅
        oldest := none
        overflow := false } where
  answers := hanswers
  seen := by simp
  delivered := by
    -- Nothing was delivered on a generation that did not exist.
    intro event _ hdelivered
    rcases hdelivered.of_concat with hbefore | ⟨query, rfl, -⟩
    · have hbegun : self.generation + 1 ≤ self.generation := h.begun _ _ hbefore
      omega
    · exact absurd rfl (hc _ query)
  oldest_le := by simp
  oldest_mem := by simp
  overflow := rfl

/-- A page with one more event of its answer. -/
theorem PageCovered.observed {filter : Filter} {page : ActivePage} {query : QueryEvent nostr}
    (h : PageCovered source answer start calls filter page)
    (hanswer : query.event.event ∈ answer page.token)
    (hobserved : start.Observed (calls ++ [.observe page.token query]) query.event.event) :
    PageCovered source answer start (calls ++ [.observe page.token query]) filter
      (withSeen page query.event.event) where
  answers := h.answers
  seen := by
    intro id hid
    rcases Finset.mem_insert.mp hid with rfl | hold
    · exact ⟨_, hanswer, rfl, hobserved⟩
    · obtain ⟨event, hevent, hid, hbefore⟩ := h.seen id hold
      exact ⟨event, hevent, hid, hbefore.append _⟩
  delivered := by
    intro event hevent hdelivered
    rcases hdelivered.of_concat with hbefore | ⟨query', hquery, -, -, rfl⟩
    · exact Finset.mem_insert_of_mem (h.delivered event hevent hbefore)
    · obtain ⟨-, rfl⟩ := by simpa using hquery
      exact Finset.mem_insert_self _ _
  oldest_le := by
    intro event hevent hseen
    refine ⟨_, rfl, ?_⟩
    -- Ids are unique at the source: an event that is seen by its id is the observed one.
    rcases Finset.mem_insert.mp hseen with hid | hold
    · have hevent : event = query.event.event :=
        source.id_injOn (HistorySource.mem_matching.mp (h.answers.subset hevent)).1
          (HistorySource.mem_matching.mp (h.answers.subset hanswer)).1 hid
      cases hpage : page.oldest with
      | none => simp [hevent]
      | some first => simp [hevent]
    · obtain ⟨first, hfirst, hle⟩ := h.oldest_le event hevent hold
      simp [hfirst, hle]
  oldest_mem := by
    intro oldest holdest
    simp only [withSeen, Option.some.injEq] at holdest
    rcases hpage : page.oldest with _ | first
    · rw [hpage, Option.elim_none] at holdest
      exact ⟨_, hanswer, holdest⟩
    · rw [hpage, Option.elim_some] at holdest
      rcases Nat.le_total first query.event.event.createdAt with hle | hle
      · obtain ⟨event, hevent, htime⟩ := h.oldest_mem first hpage
        exact ⟨event, hevent, by omega⟩
      · exact ⟨_, hanswer, by omega⟩
  overflow := h.overflow

/-- A call that leaves the page as it is delivered nothing of its answer that was not seen. -/
theorem PageCovered.unchanged {page : ActivePage}
    (h : PageCovered source answer start calls self.filter page) (hsource : self.source = start.source)
    (hactive : self.active = some page)
    (hskip : ∀ page event, self.active = some page → c = .observe page.token event →
      ¬ self.InScope event ∨ event.event.event.id ∈ page.seen) :
    PageCovered source answer start (calls ++ [c]) self.filter page := by
  refine h.concat ?_
  intro event hevent hdelivered
  rcases hdelivered.of_concat with hbefore | ⟨query, rfl, -, hid, rfl⟩
  · exact h.delivered event hevent hbefore
  · rcases hskip page query hactive rfl with hout | hseen
    · have hmatch := (HistorySource.mem_matching.mp (h.answers.subset hevent)).2
      exact absurd ⟨hid.trans hsource.symm, hmatch⟩ hout
    · exact hseen

/-- A page of a served client does not overflow: it is filled by an answer within its limit. -/
theorem PageCovered.seen_card_ne (hwf : WellFormed self) {page : ActivePage}
    (h : PageCovered source answer start calls self.filter page) {event : Event}
    (hevent : event ∈ answer page.token) (hnew : event.id ∉ page.seen) :
    page.seen.card ≠ self.maxLimit := by
  have hlt : page.seen.card < ((answer page.token).image Event.id).card := by
    apply Finset.card_lt_card
    refine ⟨h.seen_subset, ?_⟩
    intro hsub
    exact hnew (hsub (Finset.mem_image_of_mem _ hevent))
  have hcard : (answer page.token).card ≤ self.pageLimit := by
    rw [h.answers.card]
    exact Nat.min_le_left _ _
  have himage : ((answer page.token).image Event.id).card ≤ (answer page.token).card :=
    Finset.card_image_le
  have hmax := hwf.limit_le
  omega

/-- What the cursor knows when a served client finishes the active page. -/
theorem Covered.finishing (hstart : WellFormed start)
    (h : Covered source answer start calls (start.afterCalls calls)) {page : ActivePage}
    (hactive : (start.afterCalls calls).active = some page) {completion : HistoryPageCompletion}
    (hserved : ServedCall source answer start calls (.finishPage page.token completion)) :
    Finishing source answer start calls { start.afterCalls calls with active := none } page
      completion where
  start_wellFormed := hstart
  wellFormed := (wellFormed_afterCalls hstart calls).withoutActive
  continues := { continues_afterCalls start calls with }
  newer := h.newer
  covered := h.page page hactive
  all_seen := by
    rintro rfl event hevent
    have htoken := activeToken_eq_some_iff.mpr ⟨page, hactive, rfl⟩
    exact (h.page page hactive).delivered event hevent (hserved htoken event hevent)

/-- What is newer than `until` stays observed over a call. -/
theorem Covered.newer_step (hstart : WellFormed start)
    (h : Covered source answer start calls (start.afterCalls calls))
    (hserved : ServedCall source answer start calls c)
    (hcalled : Called (start.afterCalls calls) c later) {event : Event}
    (hsource : event ∈ source.events) (hmatch : start.filter.matchEvent event)
    (htime : later.pageUntil < event.createdAt) : start.Observed calls event := by
  cases hcalled with
  | unchanged _ _ => exact h.newer event hsource hmatch htime
  | begun _ _ _ => exact h.newer event hsource hmatch htime
  | full _ _ _ _ => exact h.newer event hsource hmatch htime
  | observed _ _ _ _ => exact h.newer event hsource hmatch htime
  | settled hactive hsettled =>
    exact hsettled.newer (h.finishing hstart hactive hserved) hsource hmatch htime
  | cancelled => exact h.newer event hsource hmatch htime

/-- What is known of the active page after a call. -/
theorem Covered.page_step (hstart : WellFormed start)
    (h : Covered source answer start calls (start.afterCalls calls))
    (hserved : ServedCall source answer start calls c)
    (hcalled : Called (start.afterCalls calls) c later) {page : ActivePage}
    (hpage : later.active = some page) :
    PageCovered source answer start (calls ++ [c]) later.filter page := by
  have hwf := wellFormed_afterCalls hstart calls
  have hsource := (continues_afterCalls start calls).source
  cases hcalled with
  | unchanged _ hskip => exact (h.page page hpage).unchanged hsource hpage hskip
  | begun _ _ hbegin =>
    obtain rfl := by simpa using hpage
    exact pageCovered_begun h (hserved _ hbegin) (by simp)
  | @full old hactive query hscope hnew hfull =>
    have htoken := activeToken_eq_some_iff.mpr ⟨old, hactive, rfl⟩
    exact absurd hfull ((h.page old hactive).seen_card_ne hwf (hserved htoken hscope) hnew)
  | @observed old hactive query hscope hnew hroom =>
    obtain rfl := by simpa using hpage
    have htoken := activeToken_eq_some_iff.mpr ⟨old, hactive, rfl⟩
    refine (h.page old hactive).observed (hserved htoken hscope) ?_
    refine ⟨calls, old.token, query, [], rfl, rfl, ?_⟩
    rcases observe_cases hactive query with ⟨hout | hseen, -⟩ | ⟨-, -, hfull, -⟩ | ⟨-, -, -, heq⟩
    · exact absurd hscope hout
    · exact absurd hseen hnew
    · exact absurd hfull hroom
    · rw [heq]
  | settled _ hsettled =>
    rw [hsettled.active] at hpage
    cases hpage
  | cancelled => simp [cancel] at hpage

/-- A call of a served client keeps the invariant. -/
theorem Covered.step (hstart : WellFormed start)
    (h : Covered source answer start calls (start.afterCalls calls))
    (hserved : Served source answer start (calls ++ [c])) :
    Covered source answer start (calls ++ [c]) (start.afterCalls (calls ++ [c])) := by
  have hcalled := call_called (start.afterCalls calls) c
  have hwf := wellFormed_afterCalls hstart calls
  rw [afterCalls, Mealy.after_concat]
  exact
    { newer := by
        intro event hsource hmatch htime
        exact (h.newer_step hstart hserved.last hcalled hsource hmatch htime).append [c]
      page := fun page hpage => h.page_step hstart hserved.last hcalled hpage
      begun := by
        intro token event hdelivered
        refine Nat.le_trans ?_ hcalled.continues.generation_le
        rcases hdelivered.of_concat with hbefore | ⟨query, -, hactive, -⟩
        · exact h.begun token event hbefore
        · obtain ⟨page, hpage, rfl⟩ := activeToken_eq_some_iff.mp hactive
          rw [hwf.active_token page hpage] }

/-- The invariant holds along every run of a served client. -/
theorem covered_afterCalls (hstart : WellFormed start) (hactive : start.active = none)
    (hserved : Served source answer start calls) :
    Covered source answer start calls (start.afterCalls calls) := by
  induction calls using List.reverseRecOn with
  | nil =>
    exact
      { newer := by
          intro event _ hmatch htime
          have hle := hstart.le_pageUntil hmatch
          simp only [afterCalls, Mealy.after_nil] at htime
          omega
        page := by
          intro page hpage
          rw [afterCalls, Mealy.after_nil, hactive] at hpage
          cases hpage
        begun := by
          rintro token event ⟨before, query, rest, hnil, -⟩
          simp at hnil }
  | append_singleton calls c ih => exact (ih hserved.of_append).step hstart hserved

/-- What `finish_page` returned, for a page that was active. -/
theorem finishPage_settled {token : HistoryPageToken} {completion : HistoryPageCompletion}
    (h : (self.finishPage token completion).1.status ≠ .stale) :
    ∃ page, self.active = some page ∧ page.token = token
      ∧ Settled { self with active := none } page completion
        (self.finishPage token completion).1.status (self.finishPage token completion).2 := by
  by_cases htoken : self.activeToken = some token
  · obtain ⟨page, hactive, rfl⟩ := activeToken_eq_some_iff.mp htoken
    refine ⟨page, hactive, rfl, ?_⟩
    rw [finishPage_active hactive]
    exact settle_settled _ page completion
  · rw [finishPage_stale htoken] at h
    exact absurd rfl h

/-- The cursor that `new` returns. -/
theorem new_eq {nextCursorId nextCursorId' : ℕ} {sourceId : String} {filter : Filter}
    {now maxLimit : ℕ}
    (h : new nextCursorId sourceId filter now maxLimit = (.ok start, nextCursorId')) :
    start.filter = { filter with
        limit := some (filter.limit.getD 100), until_ := some (filter.until_.getD now) }
      ∧ start.initialLimit = filter.limit.getD 100 ∧ start.maxLimit = maxLimit
      ∧ start.active = none ∧ start.stopped = false := by
  simp only [new] at h
  split_ifs at h
  · simp at h
  · simp at h
  · simp at h
  · obtain ⟨rfl, -⟩ := by simpa using h
    exact ⟨rfl, rfl, rfl, rfl, rfl⟩

/-- History pagination is complete and terminates. For a cursor that `new` accepted and every
run of a client of a static source:

- when a page ends `Exhausted`, every event of the source in scope of the original filter has
  been observed;
- `until` never increases, the limits of all pages lie between the initial and the maximal
  one, and the number of completed pages is bounded;
- a page ends `Limited` only if one second holds at least `max_limit` events in scope.

And in every process, the token of a page of another cursor, or of a page that has ended,
changes nothing. -/
theorem pagination_complete {nextCursorId nextCursorId' : ℕ} {sourceId : String}
    {filter : Filter} {now maxLimit : ℕ} {start : HistoryCursor}
    (hnew : new nextCursorId sourceId filter now maxLimit = (.ok start, nextCursorId'))
    (source : HistorySource) (answer : HistoryPageToken → Finset Event)
    (calls : List (Call nostr)) (hserved : Served source answer start calls)
    (ops : List (CursorPool.Op nostr)) :
    (∀ before token completion rest, calls = before ++ .finishPage token completion :: rest →
      ((start.afterCalls before).finishPage token completion).1.status = .exhausted →
      ∀ event ∈ source.events,
        Filter.matchEvent { filter with until_ := some (filter.until_.getD now) } event →
        start.Observed before event)
    ∧ (∀ before rest, calls = before ++ rest →
      (start.afterCalls calls).pageUntil ≤ (start.afterCalls before).pageUntil)
    ∧ (∀ before rest page, calls = before ++ .beginPage :: rest →
      (start.afterCalls before).beginPage.1 = some page →
      ∃ limit, page.filter.limit = some limit ∧ filter.limit.getD 100 ≤ limit ∧ limit ≤ maxLimit)
    ∧ completedPages start calls ≤ (filter.until_.getD now + 1) * (maxLimit + 1)
    ∧ (∀ before token completion rest, calls = before ++ .finishPage token completion :: rest →
      ((start.afterCalls before).finishPage token completion).1.status = .limited →
      ∃ time, maxLimit ≤ ((source.matching
          { filter with until_ := some (filter.until_.getD now) }).filter
        fun event => event.createdAt = time).card)
    ∧ (∀ index cursor token, (CursorPool.afterOps ops).cursors[index]? = some cursor →
      (∃ other, other ≠ index ∧ CursorPool.Issued ops other token)
        ∨ CursorPool.Ended ops index token →
      (∀ query : QueryEvent nostr, cursor.observe token query = (false, cursor))
      ∧ ∀ completion, cursor.finishPage token completion
        = ({ status := .stale, oldest := none, uniqueEvents := 0 }, cursor)) := by
  obtain ⟨hfilter, hinitial, hmax, hactive, hstopped⟩ := new_eq hnew
  have hstart := wellFormed_new hnew
  -- The limit plays no part in what matches.
  have hmatch : ∀ event, start.filter.matchEvent event
      = Filter.matchEvent { filter with until_ := some (filter.until_.getD now) } event := by
    intro event
    rw [hfilter]
    rfl
  have hmatching : source.matching start.filter
      = source.matching { filter with until_ := some (filter.until_.getD now) } := by
    unfold HistorySource.matching
    simp only [hmatch]
  have hfinishing : ∀ {before token completion rest},
      calls = before ++ .finishPage token completion :: rest →
      ((start.afterCalls before).finishPage token completion).1.status ≠ .stale →
      ∃ page later, Settled { start.afterCalls before with active := none } page completion
          ((start.afterCalls before).finishPage token completion).1.status later
        ∧ Finishing source answer start before { start.afterCalls before with active := none }
          page completion := by
    rintro before token completion rest rfl hstatus
    obtain ⟨page, hpage, rfl, hsettled⟩ := finishPage_settled hstatus
    have hcovered := covered_afterCalls hstart hactive hserved.of_append
    exact ⟨page, _, hsettled,
      hcovered.finishing hstart hpage (hserved before _ rest rfl)⟩
  refine ⟨?_, ?_, ?_, ?_, ?_, ?_⟩
  · intro before token completion rest heq hstatus event hevent hscope
    obtain ⟨page, later, hsettled, hfinish⟩ := hfinishing heq (by rw [hstatus]; decide)
    rw [hstatus] at hsettled
    exact hsettled.exhausted hfinish hevent (by rwa [hmatch])
  · rintro before rest rfl
    rw [afterCalls, Mealy.after_append]
    exact (continues_afterCalls (start.afterCalls before) rest).pageUntil_le
  · intro before rest page _ hpage
    have hwf := wellFormed_afterCalls hstart before
    have hcont := continues_afterCalls start before
    rcases beginPage_cases (start.afterCalls before) with hnone | ⟨-, -, hbegin⟩
    · simp [hnone] at hpage
    · rw [hbegin, Option.some.injEq] at hpage
      subst hpage
      refine ⟨_, hwf.limit_some, ?_, ?_⟩
      · rw [← hinitial, ← hcont.initialLimit]
        exact hwf.initialLimit_le
      · rw [← hmax, ← hcont.maxLimit]
        exact hwf.limit_le
  · refine (completedPages_le hstart calls).trans ?_
    have huntil : start.pageUntil = filter.until_.getD now := by simp [pageUntil, hfilter]
    rw [pagesLeft_eq hstopped, huntil, hmax, Nat.succ_mul]
    omega
  · intro before token completion rest heq hstatus
    obtain ⟨page, later, hsettled, hfinish⟩ := hfinishing heq (by rw [hstatus]; decide)
    rw [hstatus] at hsettled
    obtain ⟨time, htime⟩ := hsettled.limited hfinish
    rw [hmax, hmatching] at htime
    exact ⟨time, htime⟩
  · rintro index cursor token hcursor hstale
    have hne : cursor.activeToken ≠ some token := by
      rcases hstale with ⟨other, hother, hissued⟩ | hended
      · exact hissued.ne_activeToken hother hcursor
      · exact hended.ne_activeToken hcursor
    exact ⟨observe_stale hne, finishPage_stale hne⟩

end Run

/-! ## A run

One note in scope, a page given up, a late delivery of that page, a note out of scope and a
note delivered twice. -/

section NoteRun

/-- A relay that holds the two notes. -/
def noteSource : HistorySource where
  events := {noteA, noteB}
  id_injOn := by
    have hall : ∀ a ∈ ({noteA, noteB} : Finset Event), ∀ b ∈ ({noteA, noteB} : Finset Event),
        a.id = b.id → a = b := by decide +kernel
    intro a ha b hb
    exact hall a ha b hb

/-- Everything from the second of `noteB` on, two events a page. -/
def noteFilter : Filter :=
  { criteria := fun _ => true, since := some 2, until_ := none, limit := some 2 }

/-- The cursor over `noteFilter`, created at time 5. -/
def noteCursor : HistoryCursor where
  source := "relay"
  filter := { noteFilter with until_ := some 5 }
  initialLimit := 2
  maxLimit := 2
  identity := 1
  generation := 0
  active := none
  stopped := false

/-- A note as the relay delivers it. -/
def noteQuery (event : Event) (h : noteCrate.verify event = .ok ()) : QueryEvent noteCrate :=
  { event := ⟨event, h⟩, source := { id := "relay", kind := .relay, url := none }, priority := 0 }

def queryA : QueryEvent noteCrate := noteQuery noteA verifiedA.verified

def queryB : QueryEvent noteCrate := noteQuery noteB verifiedB.verified

/-- The token of a page of `noteCursor`. -/
def noteToken (page : ℕ) : HistoryPageToken := { cursor := 1, page }

/-- The calls up to the last `finish_page`. -/
def noteCalls : List (Call noteCrate) :=
  [.beginPage, .observe (noteToken 1) queryB, .finishPage (noteToken 1) .partial_, .beginPage,
    .observe (noteToken 1) queryB, .observe (noteToken 2) queryA, .observe (noteToken 2) queryB,
    .observe (noteToken 2) queryB, .finishPage (noteToken 2) .complete, .beginPage,
    .observe (noteToken 3) queryB]

theorem answers_noteB {until_ : ℕ} (h : until_ = 5 ∨ until_ = 2) :
    noteSource.Answers { noteFilter with until_ := some until_ } {noteB} := by
  have hmatching : noteSource.matching { noteFilter with until_ := some until_ } = {noteB} := by
    rcases h with rfl | rfl
    · decide +kernel
    · decide +kernel
  exact
    { subset := by rw [hmatching]
      card := by
        rw [hmatching]
        rfl
      newest := by
        intro event _ other hother hnot
        rw [hmatching] at hother
        exact absurd hother hnot }

/-- The relay answers a page that begins at one of the two times with `noteB`. -/
theorem servedCall_beginPage {before : List (Call noteCrate)} {page : HistoryPage} {until_ : ℕ}
    (hpage : (noteCursor.afterCalls before).beginPage.1 = some page)
    (hfilter : page.filter = { noteFilter with until_ := some until_ })
    (huntil : until_ = 5 ∨ until_ = 2) :
    ServedCall noteSource (fun _ => {noteB}) noteCursor before .beginPage := by
  intro other hother
  rw [hpage, Option.some.injEq] at hother
  rw [← hother, hfilter]
  exact answers_noteB huntil

theorem served_concat {before : List (Call nostr)} (h : Served source answer start before)
    (hc : ServedCall source answer start before c) :
    Served source answer start (before ++ [c]) := by
  intro earlier d rest heq
  rcases List.eq_nil_or_concat rest with rfl | ⟨rest, last, rfl⟩
  · obtain ⟨rfl, hd⟩ := List.append_inj' heq rfl
    rw [List.cons.injEq] at hd
    rwa [← hd.1]
  · have hsplit : before ++ [c] = (earlier ++ d :: rest) ++ [last] := by simpa using heq
    exact h earlier d rest (List.append_inj' hsplit rfl).1

theorem served_noteCalls : Served noteSource (fun _ => {noteB}) noteCursor
    (noteCalls ++ [.finishPage (noteToken 3) .complete]) := by
  have hnil : Served noteSource (fun _ => {noteB}) noteCursor ([] : List (Call noteCrate)) := by
    intro before c rest heq
    simp at heq
  have hB : ∀ {before : List (Call noteCrate)} (token : HistoryPageToken),
      ServedCall noteSource (fun _ => {noteB}) noteCursor before (.observe token queryB) :=
    fun _ _ _ => Finset.mem_singleton_self noteB
  -- The two pages that complete had `noteB` delivered.
  have hdelivered : ∀ {before : List (Call noteCrate)} (page : ℕ),
      noteCursor.Delivered before (noteToken page) noteB →
      ServedCall noteSource (fun _ => {noteB}) noteCursor before
        (.finishPage (noteToken page) .complete) := by
    intro before page h _ event hevent
    rwa [Finset.mem_singleton.mp hevent]
  have h3 := served_concat (served_concat (served_concat hnil
    (servedCall_beginPage rfl rfl (.inl rfl))) (hB (noteToken 1)))
    (c := .finishPage (noteToken 1) .partial_) trivial
  have h5 := served_concat (served_concat h3 (servedCall_beginPage rfl rfl (.inl rfl)))
    (hB (noteToken 1))
  have h6 := served_concat h5 (c := .observe (noteToken 2) queryA) (by
    intro _ hscope
    exact absurd hscope.2 (by decide +kernel))
  have h9 := served_concat (served_concat (served_concat h6 (hB (noteToken 2)))
    (hB (noteToken 2))) (hdelivered 2
      ⟨noteCalls.take 6, queryB, [.observe (noteToken 2) queryB], rfl, by decide +kernel, rfl, rfl⟩)
  have h11 := served_concat (served_concat h9 (servedCall_beginPage rfl rfl (.inr rfl)))
    (hB (noteToken 3))
  exact served_concat h11 (hdelivered 3
    ⟨noteCalls.take 10, queryB, [], rfl, by decide +kernel, rfl, rfl⟩)

/-- The last page ends the walk, and the note in scope has been observed. -/
theorem pagination_complete_noteCalls :
    ((noteCursor.afterCalls noteCalls).finishPage (noteToken 3) .complete).1.status = .exhausted
      ∧ noteCursor.Observed noteCalls noteB := by
  have hstatus : ((noteCursor.afterCalls noteCalls).finishPage (noteToken 3) .complete).1.status
      = .exhausted := by decide +kernel
  refine ⟨hstatus, ?_⟩
  have hnew : new 1 "relay" noteFilter 5 2 = (.ok noteCursor, 2) := rfl
  exact (pagination_complete hnew noteSource (fun _ => {noteB}) _ served_noteCalls []).1
    noteCalls (noteToken 3) .complete [] rfl hstatus noteB (by decide +kernel) (by decide +kernel)

end NoteRun

end HistoryCursor

end NostrPubsub
