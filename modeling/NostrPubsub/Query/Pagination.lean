import Mathlib.Data.Finset.Card
import NostrPubsub.Core
import NostrPubsub.ToMathlib.Mealy

/-!
# History pagination

The history cursor of `nostr-pubsub/src/pagination.rs`: it walks one source backwards in
time, page by page, with one Nostr filter. A page asks the source for the newest events up to
`until`; what is observed of the answer decides where the next page starts. Boundaries are
inclusive, so a second that holds more events than a page is asked for again with a larger
limit, up to `max_limit`.

The process-wide counter `NEXT_CURSOR_ID` is an argument and a result of `HistoryCursor.new`.
-/

namespace NostrPubsub

/-- `HistoryPageToken`. -/
structure HistoryPageToken where
  cursor : ℕ
  page : ℕ
  deriving DecidableEq

/-- `HistoryPage`. -/
structure HistoryPage where
  token : HistoryPageToken
  source : String
  filter : Filter

/-- `HistoryPageCompletion`. -/
inductive HistoryPageCompletion where
  | complete
  | partial_
  deriving DecidableEq

/-- `HistoryPageStatus`. -/
inductive HistoryPageStatus where
  | advanced
  | retry
  | exhausted
  | limited
  | stale
  deriving DecidableEq

/-- `HistoryPageOutcome`. -/
structure HistoryPageOutcome where
  status : HistoryPageStatus
  oldest : Option ℕ
  uniqueEvents : ℕ
  deriving DecidableEq

/-- `ActivePage`. -/
structure ActivePage where
  token : HistoryPageToken
  seen : Finset EventId
  oldest : Option ℕ
  overflow : Bool

/-- `HistoryCursor`. -/
structure HistoryCursor where
  source : String
  filter : Filter
  initialLimit : ℕ
  maxLimit : ℕ
  identity : ℕ
  generation : ℕ
  active : Option ActivePage
  stopped : Bool

namespace HistoryCursor

variable {nostr : NostrCrate}

/-! ## Operations -/

/-- `HistoryCursor::new`, with the counter `NEXT_CURSOR_ID` before and after. -/
def new (nextCursorId : ℕ) (source : String) (filter : Filter) (now maxLimit : ℕ) :
    Except PubsubError HistoryCursor × ℕ :=
  let limit := filter.limit.getD 100
  if limit = 0 ∨ maxLimit < limit ∨ 65536 < maxLimit then
    (.error (.validation "invalid history page limits"), nextCursorId)
  else
    let until_ := filter.until_.getD now
    if filter.since.any (fun since => until_ < since) then
      (.error (.validation "history since exceeds until"), nextCursorId)
    else if u64Max < nextCursorId + 1 then
      (.error (.validation "history cursor identity exhausted"), nextCursorId)
    else
      (.ok
        { source
          filter := { filter with limit := some limit, until_ := some until_ }
          initialLimit := limit
          maxLimit
          identity := nextCursorId
          generation := 0
          active := none
          stopped := false },
        nextCursorId + 1)

/-- `HistoryCursor::begin_page`. -/
def beginPage (self : HistoryCursor) : Option HistoryPage × HistoryCursor :=
  if self.stopped ∨ self.active.isSome then
    (none, self)
  else if u64Max < self.generation + 1 then
    (none, self)
  else
    let token : HistoryPageToken := { cursor := self.identity, page := self.generation + 1 }
    (some { token, source := self.source, filter := self.filter },
      { self with
        generation := self.generation + 1
        active := some { token, seen := ∅, oldest := none, overflow := false } })

/-- `HistoryCursor::observe`. -/
def observe (self : HistoryCursor) (token : HistoryPageToken) (event : QueryEvent nostr) :
    Bool × HistoryCursor :=
  match self.active.filter (fun page => page.token = token) with
  | none => (false, self)
  | some page =>
    let value := event.event.event
    if event.source.id ≠ self.source ∨ ¬ self.filter.matchEvent value ∨ value.id ∈ page.seen then
      (false, self)
    else if page.seen.card = self.maxLimit then
      (false, { self with active := some { page with overflow := true } })
    else
      (true,
        { self with
          active := some
            { page with
              seen := insert value.id page.seen
              oldest := some (page.oldest.elim value.createdAt (min · value.createdAt)) } })

/-- The upper end of the next page. `new` sets `until`, and nothing clears it. -/
def pageUntil (self : HistoryCursor) : ℕ := self.filter.until_.getD 0

/-- The limit of the next page. `new` sets `limit`, and nothing clears it. -/
def pageLimit (self : HistoryCursor) : ℕ := self.filter.limit.getD 0

/-- `self.filter.until = Some(until)`. -/
def setUntil (self : HistoryCursor) (until_ : ℕ) : HistoryCursor :=
  { self with filter := { self.filter with until_ := some until_ } }

/-- `self.filter.limit = Some(limit)`. -/
def setLimit (self : HistoryCursor) (limit : ℕ) : HistoryCursor :=
  { self with filter := { self.filter with limit := some limit } }

/-- `self.stopped = true`. -/
def stop (self : HistoryCursor) : HistoryCursor := { self with stopped := true }

/-- The status of `finish_page` and what it leaves of the cursor, for the page it has taken
out of `active`. -/
def settle (self : HistoryCursor) (page : ActivePage) (completion : HistoryPageCompletion) :
    HistoryPageStatus × HistoryCursor :=
  if page.overflow then
    (.limited, self.stop)
  else if completion = .partial_ then
    (.retry, self)
  else
    match page.oldest with
    | none => (.exhausted, self.stop)
    | some oldest =>
      if oldest < self.pageUntil then
        (.advanced, (self.setUntil oldest).setLimit self.initialLimit)
      else if self.pageLimit ≤ page.seen.card then
        if self.pageLimit = self.maxLimit then
          (.limited, self.stop)
        else
          (.advanced, self.setLimit (min (min (self.pageLimit * 2) u64Max) self.maxLimit))
      else if self.pageUntil = 0
          ∨ self.filter.since.any (fun since => self.pageUntil ≤ since) then
        (.exhausted, self.stop)
      else
        (.advanced, (self.setUntil (self.pageUntil - 1)).setLimit self.initialLimit)

/-- `HistoryCursor::finish_page`. -/
def finishPage (self : HistoryCursor) (token : HistoryPageToken)
    (completion : HistoryPageCompletion) : HistoryPageOutcome × HistoryCursor :=
  match self.active.filter (fun page => page.token = token) with
  | none => ({ status := .stale, oldest := none, uniqueEvents := 0 }, self)
  | some page =>
    let settled := settle { self with active := none } page completion
    ({ status := settled.1, oldest := page.oldest, uniqueEvents := page.seen.card }, settled.2)

/-- `HistoryCursor::cancel`. -/
def cancel (self : HistoryCursor) : HistoryCursor := { self with active := none, stopped := true }

/-- The token of the page that is active. -/
def activeToken (self : HistoryCursor) : Option HistoryPageToken :=
  self.active.map (·.token)

/-! ## What an operation can do -/

/-- The event is delivered by the cursor's source and matches its filter. -/
def InScope (self : HistoryCursor) (event : QueryEvent nostr) : Prop :=
  event.source.id = self.source ∧ self.filter.matchEvent event.event.event

/-- The page with one more event in it. -/
def withSeen (page : ActivePage) (event : Event) : ActivePage :=
  { page with
    seen := insert event.id page.seen
    oldest := some (page.oldest.elim event.createdAt (min · event.createdAt)) }

variable {self : HistoryCursor} {token : HistoryPageToken}

theorem activeToken_eq_some_iff :
    self.activeToken = some token ↔ ∃ page, self.active = some page ∧ page.token = token := by
  simp [activeToken]

/-- Without a page of this token, `observe` and `finish_page` see none. -/
theorem active_filter_eq_none (h : self.activeToken ≠ some token) :
    self.active.filter (fun page => page.token = token) = none := by
  rw [Option.filter_eq_none_iff]
  intro page hpage htoken
  exact h (activeToken_eq_some_iff.mpr ⟨page, hpage, by simpa using htoken⟩)

/-- A token that is not the active page's observes nothing and changes nothing. -/
theorem observe_stale (h : self.activeToken ≠ some token) (event : QueryEvent nostr) :
    self.observe token event = (false, self) := by
  rw [observe, active_filter_eq_none h]

/-- A token that is not the active page's finishes nothing and changes nothing. -/
theorem finishPage_stale (h : self.activeToken ≠ some token)
    (completion : HistoryPageCompletion) :
    self.finishPage token completion
      = ({ status := .stale, oldest := none, uniqueEvents := 0 }, self) := by
  rw [finishPage, active_filter_eq_none h]

/-- What `observe` does to an active page: nothing for an event out of scope or already seen,
a mark when the page is full, and otherwise one more event. -/
theorem observe_cases {page : ActivePage} (hactive : self.active = some page)
    (event : QueryEvent nostr) :
    ((¬ self.InScope event ∨ event.event.event.id ∈ page.seen)
      ∧ self.observe page.token event = (false, self))
    ∨ (self.InScope event ∧ event.event.event.id ∉ page.seen ∧ page.seen.card = self.maxLimit
      ∧ self.observe page.token event
        = (false, { self with active := some { page with overflow := true } }))
    ∨ (self.InScope event ∧ event.event.event.id ∉ page.seen ∧ page.seen.card ≠ self.maxLimit
      ∧ self.observe page.token event
        = (true, { self with active := some (withSeen page event.event.event) })) := by
  have hpage : self.active.filter (fun p => p.token = page.token) = some page := by simp [hactive]
  rw [observe, hpage]
  by_cases hskip : ¬ self.InScope event ∨ event.event.event.id ∈ page.seen
  · have hcond : event.source.id ≠ self.source ∨ ¬ self.filter.matchEvent event.event.event
        ∨ event.event.event.id ∈ page.seen := by
      rcases hskip with hscope | hseen
      · by_cases hid : event.source.id = self.source
        · exact .inr (.inl fun hmatch => hscope ⟨hid, hmatch⟩)
        · exact .inl hid
      · exact .inr (.inr hseen)
    exact .inl ⟨hskip, by simp only [if_pos hcond]⟩
  · obtain ⟨hscope, hseen⟩ := not_or.mp hskip
    rw [not_not] at hscope
    have hcond : ¬ (event.source.id ≠ self.source ∨ ¬ self.filter.matchEvent event.event.event
        ∨ event.event.event.id ∈ page.seen) := by
      rintro (hid | hmatch | hmem)
      · exact hid hscope.1
      · exact hmatch hscope.2
      · exact hseen hmem
    by_cases hfull : page.seen.card = self.maxLimit
    · exact .inr (.inl ⟨hscope, hseen, hfull, by simp only [if_neg hcond, if_pos hfull]⟩)
    · refine .inr (.inr ⟨hscope, hseen, hfull, ?_⟩)
      simp only [if_neg hcond, if_neg hfull]
      rfl

/-- `finish_page` on the active page settles it. -/
theorem finishPage_active {page : ActivePage} (hactive : self.active = some page)
    (completion : HistoryPageCompletion) :
    self.finishPage page.token completion
      = ({ status := (settle { self with active := none } page completion).1
           oldest := page.oldest
           uniqueEvents := page.seen.card },
          (settle { self with active := none } page completion).2) := by
  have hpage : self.active.filter (fun p => p.token = page.token) = some page := by simp [hactive]
  rw [finishPage, hpage]

/-- `begin_page` gives no page and changes nothing, or opens a page of a new generation. -/
theorem beginPage_cases (self : HistoryCursor) :
    self.beginPage = (none, self)
    ∨ (self.stopped = false ∧ self.active = none
      ∧ self.beginPage
        = (some { token := { cursor := self.identity, page := self.generation + 1 }
                  source := self.source
                  filter := self.filter },
            { self with
              generation := self.generation + 1
              active := some
                { token := { cursor := self.identity, page := self.generation + 1 }
                  seen := ∅
                  oldest := none
                  overflow := false } })) := by
  unfold beginPage
  by_cases hbusy : self.stopped = true ∨ self.active.isSome = true
  · exact .inl (by rw [if_pos hbusy])
  · rw [if_neg hbusy]
    by_cases hlast : u64Max < self.generation + 1
    · exact .inl (by rw [if_pos hlast])
    · refine .inr ⟨by simpa using (not_or.mp hbusy).1, by simpa using (not_or.mp hbusy).2, ?_⟩
      rw [if_neg hlast]

/-! ## Calls and runs -/

/-- A call on a cursor. -/
inductive Call (nostr : NostrCrate) where
  | beginPage
  | observe (token : HistoryPageToken) (event : QueryEvent nostr)
  | finishPage (token : HistoryPageToken) (completion : HistoryPageCompletion)
  | cancel

/-- What a call returns. -/
inductive Reply where
  | page (page : Option HistoryPage)
  | observed (new : Bool)
  | outcome (outcome : HistoryPageOutcome)
  | cancelled

/-- One call on a cursor. -/
def call : Call nostr → HistoryCursor → Reply × HistoryCursor
  | .beginPage, self => (.page self.beginPage.1, self.beginPage.2)
  | .observe token event, self =>
    (.observed (self.observe token event).1, (self.observe token event).2)
  | .finishPage token completion, self =>
    (.outcome (self.finishPage token completion).1, (self.finishPage token completion).2)
  | .cancel, self => (.cancelled, self.cancel)

/-- The cursor after a list of calls. -/
abbrev afterCalls (start : HistoryCursor) (calls : List (Call nostr)) : HistoryCursor :=
  Mealy.after call start calls

end HistoryCursor

end NostrPubsub
