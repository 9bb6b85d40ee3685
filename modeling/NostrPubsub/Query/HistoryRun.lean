import NostrPubsub.Query.Pagination

/-!
# Runs of a history cursor

What every call keeps, whoever makes it and whatever the source delivers: the settings of a
cursor are fixed, `until` never grows, the limit of a page stays between the initial and the
maximal one, and every completed page uses up one unit of a quantity fixed when the cursor is
created.
-/

namespace NostrPubsub

namespace HistoryCursor

variable {nostr : NostrCrate}

/-! ## Settling a page -/

/-- The ways a page can be settled, with the cursor that is left. -/
inductive Settled (self : HistoryCursor) (page : ActivePage) :
    HistoryPageCompletion → HistoryPageStatus → HistoryCursor → Prop where
  /-- More events than `max_limit` were observed. -/
  | overflow {completion : HistoryPageCompletion} (h : page.overflow = true) :
      Settled self page completion .limited self.stop
  /-- The source did not finish the page. -/
  | retry (h : page.overflow = false) : Settled self page .partial_ .retry self
  /-- The page was empty. -/
  | empty (h : page.overflow = false) (hnone : page.oldest = none) :
      Settled self page .complete .exhausted self.stop
  /-- The page reached below `until`. -/
  | advance (h : page.overflow = false) {oldest : ℕ} (holdest : page.oldest = some oldest)
      (hlt : oldest < self.pageUntil) :
      Settled self page .complete .advanced
        ((self.setUntil oldest).setLimit self.initialLimit)
  /-- The second `until` fills a page of the maximal size. -/
  | dense (h : page.overflow = false) {oldest : ℕ} (holdest : page.oldest = some oldest)
      (hle : self.pageUntil ≤ oldest) (hfull : self.pageLimit ≤ page.seen.card)
      (hmax : self.pageLimit = self.maxLimit) :
      Settled self page .complete .limited self.stop
  /-- The second `until` fills a page that can still grow. -/
  | grow (h : page.overflow = false) {oldest : ℕ} (holdest : page.oldest = some oldest)
      (hle : self.pageUntil ≤ oldest) (hfull : self.pageLimit ≤ page.seen.card)
      (hmax : self.pageLimit ≠ self.maxLimit) :
      Settled self page .complete .advanced
        (self.setLimit (min (min (self.pageLimit * 2) u64Max) self.maxLimit))
  /-- The page held the whole rest, all of it in the lowest second of the window. -/
  | floor (h : page.overflow = false) {oldest : ℕ} (holdest : page.oldest = some oldest)
      (hle : self.pageUntil ≤ oldest) (hfull : page.seen.card < self.pageLimit)
      (hfloor : self.pageUntil = 0 ∨ self.filter.since.any (fun since => self.pageUntil ≤ since)) :
      Settled self page .complete .exhausted self.stop
  /-- The page held all events of the second `until`. -/
  | below (h : page.overflow = false) {oldest : ℕ} (holdest : page.oldest = some oldest)
      (hle : self.pageUntil ≤ oldest) (hfull : page.seen.card < self.pageLimit)
      (hfloor :
        ¬ (self.pageUntil = 0 ∨ self.filter.since.any (fun since => self.pageUntil ≤ since))) :
      Settled self page .complete .advanced
        ((self.setUntil (self.pageUntil - 1)).setLimit self.initialLimit)

/-- Every page is settled in one of these ways. -/
theorem settle_settled (self : HistoryCursor) (page : ActivePage)
    (completion : HistoryPageCompletion) :
    Settled self page completion (settle self page completion).1
      (settle self page completion).2 := by
  unfold settle
  by_cases hoverflow : page.overflow = true
  · rw [if_pos hoverflow]
    exact .overflow hoverflow
  rw [if_neg hoverflow]
  have hoverflow : page.overflow = false := by simpa using hoverflow
  cases completion with
  | partial_ => exact .retry hoverflow
  | complete =>
    rw [if_neg (by decide)]
    rcases holdest : page.oldest with _ | oldest
    · exact .empty hoverflow holdest
    -- The ways a page with events advances or ends, in the order the source tests them.
    by_cases hlt : oldest < self.pageUntil
    · simp only [if_pos hlt]
      exact .advance hoverflow holdest hlt
    simp only [if_neg hlt]
    rw [Nat.not_lt] at hlt
    by_cases hfull : self.pageLimit ≤ page.seen.card
    · simp only [if_pos hfull]
      by_cases hmax : self.pageLimit = self.maxLimit
      · simp only [if_pos hmax]
        exact .dense hoverflow holdest hlt hfull hmax
      · simp only [if_neg hmax]
        exact .grow hoverflow holdest hlt hfull hmax
    simp only [if_neg hfull]
    rw [Nat.not_le] at hfull
    by_cases hfloor : self.pageUntil = 0
        ∨ self.filter.since.any (fun since => self.pageUntil ≤ since) = true
    · simp only [if_pos hfloor]
      exact .floor hoverflow holdest hlt hfull hfloor
    · simp only [if_neg hfloor]
      exact .below hoverflow holdest hlt hfull hfloor

/-! ## What every call keeps -/

/-- The invariant of a cursor created by `new`. -/
structure WellFormed (cursor : HistoryCursor) : Prop where
  until_some : cursor.filter.until_ = some cursor.pageUntil
  limit_some : cursor.filter.limit = some cursor.pageLimit
  initialLimit_pos : 0 < cursor.initialLimit
  maxLimit_le : cursor.maxLimit ≤ 65536
  initialLimit_le : cursor.initialLimit ≤ cursor.pageLimit
  limit_le : cursor.pageLimit ≤ cursor.maxLimit
  /-- The active page is the one begun last. -/
  active_token : ∀ page, cursor.active = some page →
    page.token = { cursor := cursor.identity, page := cursor.generation }
  /-- The oldest event of the active page lies in its window. -/
  active_oldest : ∀ page, cursor.active = some page → ∀ oldest, page.oldest = some oldest →
    oldest ≤ cursor.pageUntil
  /-- A cursor that ended has no page. -/
  stopped_active : cursor.stopped = true → cursor.active = none

/-- How a cursor relates to itself after further calls. -/
structure Continues (earlier later : HistoryCursor) : Prop where
  source : later.source = earlier.source
  criteria : later.filter.criteria = earlier.filter.criteria
  since : later.filter.since = earlier.filter.since
  initialLimit : later.initialLimit = earlier.initialLimit
  maxLimit : later.maxLimit = earlier.maxLimit
  identity : later.identity = earlier.identity
  pageUntil_le : later.pageUntil ≤ earlier.pageUntil
  generation_le : earlier.generation ≤ later.generation

theorem Continues.refl (self : HistoryCursor) : Continues self self :=
  ⟨rfl, rfl, rfl, rfl, rfl, rfl, Nat.le_refl _, Nat.le_refl _⟩

theorem Continues.trans {a b c : HistoryCursor} (hab : Continues a b) (hbc : Continues b c) :
    Continues a c where
  source := hbc.source.trans hab.source
  criteria := hbc.criteria.trans hab.criteria
  since := hbc.since.trans hab.since
  initialLimit := hbc.initialLimit.trans hab.initialLimit
  maxLimit := hbc.maxLimit.trans hab.maxLimit
  identity := hbc.identity.trans hab.identity
  pageUntil_le := hbc.pageUntil_le.trans hab.pageUntil_le
  generation_le := hab.generation_le.trans hbc.generation_le

/-- An upper bound on the pages a cursor can still complete. Completing a page lowers `until`,
or keeps it and raises the limit, or stops the cursor. -/
def pagesLeft (self : HistoryCursor) : ℕ :=
  if self.stopped then 0
  else self.pageUntil * (self.maxLimit + 1) + (self.maxLimit - self.pageLimit) + 1

/-- The call finishes the active page, as completed by the source. -/
def Completes (self : HistoryCursor) : Call nostr → Prop
  | .finishPage token .complete => self.activeToken = some token
  | _ => False

instance (self : HistoryCursor) (call : Call nostr) : Decidable (self.Completes call) := by
  unfold Completes
  split
  · infer_instance
  · infer_instance

/-- The number of pages that a list of calls completes. -/
def completedPages : HistoryCursor → List (Call nostr) → ℕ
  | _, [] => 0
  | self, c :: rest =>
    (if self.Completes c then 1 else 0) + completedPages (call c self).2 rest

/-- `new` creates a well-formed cursor. -/
theorem wellFormed_new {nextCursorId nextCursorId' : ℕ} {source : String} {filter : Filter}
    {now maxLimit : ℕ} {start : HistoryCursor}
    (h : new nextCursorId source filter now maxLimit = (.ok start, nextCursorId')) :
    WellFormed start := by
  simp only [new] at h
  split_ifs at h with hlimits hsince hid
  · simp at h
  · simp at h
  · simp at h
  · obtain ⟨rfl, -⟩ := by simpa using h
    have hlimits : ¬ filter.limit.getD 100 = 0 ∧ ¬ maxLimit < filter.limit.getD 100
        ∧ ¬ 65536 < maxLimit := by simpa only [not_or] using hlimits
    exact
      { until_some := rfl
        limit_some := rfl
        initialLimit_pos := Nat.pos_of_ne_zero hlimits.1
        maxLimit_le := Nat.not_lt.mp hlimits.2.2
        initialLimit_le := Nat.le_refl _
        limit_le := Nat.not_lt.mp hlimits.2.1
        active_token := by simp
        active_oldest := by simp
        stopped_active := by simp }

theorem WellFormed.stop {self : HistoryCursor} (h : WellFormed self)
    (hactive : self.active = none) : WellFormed self.stop :=
  { h with stopped_active := fun _ => hactive }

theorem WellFormed.setUntil {self : HistoryCursor} (h : WellFormed self)
    (hactive : self.active = none) (until_ : ℕ) : WellFormed (self.setUntil until_) :=
  { h with
    until_some := rfl
    active_oldest := by simp [HistoryCursor.setUntil, hactive] }

theorem WellFormed.setLimit {self : HistoryCursor} (h : WellFormed self) {limit : ℕ}
    (hinitial : self.initialLimit ≤ limit) (hmax : limit ≤ self.maxLimit) :
    WellFormed (self.setLimit limit) :=
  { h with
    limit_some := rfl
    initialLimit_le := hinitial
    limit_le := hmax }

/-- Settling a page keeps the cursor well formed. -/
theorem Settled.wellFormed {self later : HistoryCursor} {page : ActivePage}
    {completion : HistoryPageCompletion} {status : HistoryPageStatus}
    (hsettled : Settled self page completion status later) (h : WellFormed self)
    (hactive : self.active = none) : WellFormed later := by
  have hinitial := h.initialLimit_le
  have hlimits := h.initialLimit_le.trans h.limit_le
  cases hsettled with
  | overflow _ => exact h.stop hactive
  | retry _ => exact h
  | empty _ _ => exact h.stop hactive
  | advance _ _ _ => exact (h.setUntil hactive _).setLimit (Nat.le_refl _) hlimits
  | dense _ _ _ _ _ => exact h.stop hactive
  | grow _ _ _ _ _ =>
    have hmax := h.maxLimit_le
    refine h.setLimit ?_ (Nat.min_le_right _ _)
    simp only [u64Max]
    omega
  | floor _ _ _ _ _ => exact h.stop hactive
  | below _ _ _ _ _ => exact (h.setUntil hactive _).setLimit (Nat.le_refl _) hlimits

/-- Settling a page opens none. -/
theorem Settled.active {self later : HistoryCursor} {page : ActivePage}
    {completion : HistoryPageCompletion} {status : HistoryPageStatus}
    (hsettled : Settled self page completion status later) : later.active = self.active := by
  cases hsettled <;> rfl

/-- Settling a page continues the cursor. -/
theorem Settled.continues {self later : HistoryCursor} {page : ActivePage}
    {completion : HistoryPageCompletion} {status : HistoryPageStatus}
    (hsettled : Settled self page completion status later) : Continues self later := by
  have hself := Continues.refl self
  cases hsettled with
  | overflow _ => exact { hself with }
  | retry _ => exact hself
  | empty _ _ => exact { hself with }
  | advance _ _ hlt => exact { hself with pageUntil_le := Nat.le_of_lt hlt }
  | dense _ _ _ _ _ => exact { hself with }
  | grow _ _ _ _ _ => exact { hself with }
  | floor _ _ _ _ _ => exact { hself with }
  | below _ _ _ _ _ => exact { hself with pageUntil_le := Nat.sub_le _ _ }

@[simp]
theorem pagesLeft_stop (self : HistoryCursor) : pagesLeft self.stop = 0 := rfl

/-- The pages left of a cursor that has not ended. -/
theorem pagesLeft_eq {self : HistoryCursor} (h : self.stopped = false) :
    pagesLeft self
      = self.pageUntil * (self.maxLimit + 1) + (self.maxLimit - self.pageLimit) + 1 := by
  simp [pagesLeft, h]

/-- Lowering `until` pays for every limit the next second may need. -/
theorem pagesLeft_lower {self : HistoryCursor} (h : self.stopped = false) {until_ : ℕ}
    (hlt : until_ < self.pageUntil) (limit : ℕ) :
    1 + pagesLeft ((self.setUntil until_).setLimit limit) ≤ pagesLeft self := by
  have hlater : pagesLeft ((self.setUntil until_).setLimit limit)
      = until_ * (self.maxLimit + 1) + (self.maxLimit - limit) + 1 := pagesLeft_eq h
  have hmul : (until_ + 1) * (self.maxLimit + 1) ≤ self.pageUntil * (self.maxLimit + 1) :=
    Nat.mul_le_mul_right _ hlt
  rw [Nat.succ_mul] at hmul
  rw [hlater, pagesLeft_eq h]
  omega

/-- A completed page uses up one of the pages left; any other leaves no more of them. -/
theorem Settled.pagesLeft_le {self later : HistoryCursor} {page : ActivePage}
    {completion : HistoryPageCompletion} {status : HistoryPageStatus}
    (hsettled : Settled self page completion status later) (h : WellFormed self)
    (hstopped : self.stopped = false) :
    (if completion = .complete then 1 else 0) + pagesLeft later ≤ pagesLeft self := by
  have hleft := pagesLeft_eq hstopped
  have hinitial := h.initialLimit_le
  have hpos := h.initialLimit_pos
  have hlimit := h.limit_le
  have hbound := h.maxLimit_le
  cases hsettled with
  | overflow _ =>
    rw [pagesLeft_stop]
    split <;> omega
  | retry _ => simp
  | empty _ _ =>
    rw [pagesLeft_stop, if_pos rfl]
    omega
  | advance _ _ hlt => exact pagesLeft_lower hstopped hlt self.initialLimit
  | dense _ _ _ _ _ =>
    rw [pagesLeft_stop, if_pos rfl]
    omega
  | grow _ _ _ _ hmax =>
    -- `until` stays, and the limit grows as it is positive and below the maximum.
    have hlater : pagesLeft (self.setLimit (min (min (self.pageLimit * 2) u64Max) self.maxLimit))
        = self.pageUntil * (self.maxLimit + 1)
          + (self.maxLimit - min (min (self.pageLimit * 2) u64Max) self.maxLimit) + 1 :=
      pagesLeft_eq hstopped
    rw [hlater, hleft, if_pos rfl]
    simp only [u64Max]
    omega
  | floor _ _ _ _ _ =>
    rw [pagesLeft_stop, if_pos rfl]
    omega
  | below _ _ _ _ hfloor =>
    obtain ⟨hzero, -⟩ := not_or.mp hfloor
    exact pagesLeft_lower hstopped (by omega) self.initialLimit

/-! ## One call -/

/-- The four ways a call changes a cursor: not at all, by beginning a page, by changing what
is recorded of the active page, or by settling or dropping the active page. -/
inductive Called (self : HistoryCursor) : Call nostr → HistoryCursor → Prop where
  | unchanged {c : Call nostr} (h : ¬ self.Completes c)
      (hskip : ∀ page event, self.active = some page → c = .observe page.token event →
        ¬ self.InScope event ∨ event.event.event.id ∈ page.seen) :
      Called self c self
  | begun (hstopped : self.stopped = false) (hactive : self.active = none)
      (hpage : self.beginPage.1 = some
        { token := { cursor := self.identity, page := self.generation + 1 }
          source := self.source
          filter := self.filter }) :
      Called self .beginPage
        { self with
          generation := self.generation + 1
          active := some
            { token := { cursor := self.identity, page := self.generation + 1 }
              seen := ∅
              oldest := none
              overflow := false } }
  | full {page : ActivePage} (hactive : self.active = some page) {event : QueryEvent nostr}
      (hscope : self.InScope event) (hnew : event.event.event.id ∉ page.seen)
      (hfull : page.seen.card = self.maxLimit) :
      Called self (.observe page.token event)
        { self with active := some { page with overflow := true } }
  | observed {page : ActivePage} (hactive : self.active = some page) {event : QueryEvent nostr}
      (hscope : self.InScope event) (hnew : event.event.event.id ∉ page.seen)
      (hroom : page.seen.card ≠ self.maxLimit) :
      Called self (.observe page.token event)
        { self with active := some (withSeen page event.event.event) }
  | settled {page : ActivePage} (hactive : self.active = some page)
      {completion : HistoryPageCompletion} {status : HistoryPageStatus} {later : HistoryCursor}
      (hsettled : Settled { self with active := none } page completion status later) :
      Called self (.finishPage page.token completion) later
  | cancelled : Called self .cancel self.cancel

/-- Every call changes a cursor in one of these ways. -/
theorem call_called (self : HistoryCursor) (c : Call nostr) : Called self c (call c self).2 := by
  cases c with
  | beginPage =>
    rcases beginPage_cases self with hnone | ⟨hstopped, hactive, hpage⟩
    · simp only [call, hnone]
      exact .unchanged not_false (by simp)
    · simp only [call, hpage]
      exact .begun hstopped hactive (by rw [hpage])
  | observe token event =>
    by_cases htoken : self.activeToken = some token
    · obtain ⟨page, hactive, rfl⟩ := activeToken_eq_some_iff.mp htoken
      rcases observe_cases hactive event with ⟨hskip, h⟩ | ⟨hscope, hnew, hfull, h⟩
        | ⟨hscope, hnew, hroom, h⟩
      · simp only [call, h]
        refine .unchanged not_false ?_
        intro other query hother hquery
        obtain rfl : page = other := by simpa [hactive] using hother
        obtain ⟨-, rfl⟩ := by simpa using hquery
        exact hskip
      · simpa only [call, h] using Called.full hactive hscope hnew hfull
      · simpa only [call, h] using Called.observed hactive hscope hnew hroom
    · simp only [call, observe_stale htoken]
      refine .unchanged not_false ?_
      intro page query hactive hquery
      obtain ⟨rfl, -⟩ := by simpa using hquery
      exact absurd (activeToken_eq_some_iff.mpr ⟨page, hactive, rfl⟩) htoken
  | finishPage token completion =>
    by_cases htoken : self.activeToken = some token
    · obtain ⟨page, hactive, rfl⟩ := activeToken_eq_some_iff.mp htoken
      simp only [call, finishPage_active hactive completion]
      exact .settled hactive (settle_settled _ page completion)
    · have hother : ¬ self.Completes (.finishPage token completion : Call nostr) := by
        cases completion with
        | complete => exact htoken
        | partial_ => exact not_false
      simp only [call, finishPage_stale htoken]
      exact .unchanged hother (by simp)
  | cancel => exact .cancelled

theorem WellFormed.withoutActive {self : HistoryCursor} (h : WellFormed self) :
    WellFormed { self with active := none } :=
  { h with
    active_token := by simp
    active_oldest := by simp
    stopped_active := fun _ => rfl }

/-- A cursor with a page has not ended. -/
theorem WellFormed.not_stopped {self : HistoryCursor} (h : WellFormed self) {page : ActivePage}
    (hactive : self.active = some page) : self.stopped = false := by
  by_contra hstopped
  have hnone := h.stopped_active (by simpa using hstopped)
  rw [hactive] at hnone
  cases hnone

/-- The filter of a well-formed cursor bounds the events in scope by `until`. -/
theorem WellFormed.le_pageUntil {self : HistoryCursor} (h : WellFormed self) {event : Event}
    (hmatch : self.filter.matchEvent event) : event.createdAt ≤ self.pageUntil := by
  rw [Filter.matchEvent, h.until_some] at hmatch
  simp only [Option.all_some, Bool.and_eq_true, decide_eq_true_eq] at hmatch
  exact hmatch.2

/-- The oldest event of a page with one more event. -/
theorem withSeen_oldest_le {page : ActivePage} {event : Event} {bound oldest : ℕ}
    (hevent : event.createdAt ≤ bound) (h : (withSeen page event).oldest = some oldest) : oldest ≤ bound := by
  simp only [withSeen, Option.some.injEq] at h
  rcases hpage : page.oldest with _ | first
  · simp only [hpage, Option.elim_none] at h
    omega
  · simp only [hpage, Option.elim_some] at h
    omega

/-- A call keeps a cursor well formed. -/
theorem Called.wellFormed {self later : HistoryCursor} {c : Call nostr}
    (hcalled : Called self c later) (h : WellFormed self) : WellFormed later := by
  -- A call begins a page, goes on with it, or ends it; only the first two keep an active page.
  cases hcalled with
  | unchanged _ _ => exact h
  | begun hstopped _ _ =>
    exact
      { h with
        active_token := by
          intro page hpage
          obtain rfl := by simpa using hpage
          rfl
        active_oldest := by
          intro page hpage
          obtain rfl := by simpa using hpage
          simp
        stopped_active := by simp [hstopped] }
  | @full page hactive _ _ _ _ =>
    exact
      { h with
        active_token := by
          intro later hlater
          obtain rfl := by simpa using hlater
          exact h.active_token page hactive
        active_oldest := by
          intro later hlater
          obtain rfl := by simpa using hlater
          exact h.active_oldest page hactive
        stopped_active := by simp [h.not_stopped hactive] }
  | @observed page hactive _ hscope _ _ =>
    exact
      { h with
        active_token := by
          intro later hlater
          obtain rfl := by simpa using hlater
          exact h.active_token page hactive
        active_oldest := by
          intro later hlater oldest holdest
          obtain rfl := by simpa using hlater
          exact withSeen_oldest_le (h.le_pageUntil hscope.2) holdest
        stopped_active := by simp [h.not_stopped hactive] }
  | settled _ hsettled => exact hsettled.wellFormed h.withoutActive rfl
  | cancelled => exact h.withoutActive.stop rfl

/-- A call continues the cursor. -/
theorem Called.continues {self later : HistoryCursor} {c : Call nostr}
    (hcalled : Called self c later) : Continues self later := by
  have hself := Continues.refl self
  cases hcalled with
  | unchanged _ _ => exact hself
  | begun _ _ _ => exact { hself with generation_le := Nat.le_succ _ }
  | full _ _ _ _ => exact { hself with }
  | observed _ _ _ _ => exact { hself with }
  | settled _ hsettled =>
    have hlater := hsettled.continues
    exact { hlater with }
  | cancelled => exact { hself with }

/-- A call that completes a page uses up one of the pages left; no call adds to them. -/
theorem Called.pagesLeft_le {self later : HistoryCursor} {c : Call nostr}
    (hcalled : Called self c later) (h : WellFormed self) :
    (if self.Completes c then 1 else 0) + pagesLeft later ≤ pagesLeft self := by
  cases hcalled with
  | unchanged hother _ => simp [hother]
  | begun _ _ _ => exact (Nat.zero_add _).le
  | full _ _ _ _ => exact (Nat.zero_add _).le
  | observed _ _ _ _ => exact (Nat.zero_add _).le
  | @settled page hactive completion _ _ hsettled =>
    have hle := hsettled.pagesLeft_le h.withoutActive (h.not_stopped hactive)
    have htoken : self.activeToken = some page.token :=
      activeToken_eq_some_iff.mpr ⟨page, hactive, rfl⟩
    cases completion with
    | complete =>
      rw [if_pos (show self.Completes (.finishPage page.token .complete : Call nostr) from htoken)]
      exact hle
    | partial_ => exact hle
  | cancelled =>
    change 0 + pagesLeft self.cancel ≤ _
    exact Nat.zero_le _

/-! ## Runs -/

theorem wellFormed_afterCalls {start : HistoryCursor} (h : WellFormed start)
    (calls : List (Call nostr)) : WellFormed (start.afterCalls calls) :=
  Mealy.invariant (fun c self hself => (call_called self c).wellFormed hself) h calls

theorem continues_afterCalls (start : HistoryCursor) (calls : List (Call nostr)) :
    Continues start (start.afterCalls calls) :=
  Mealy.invariant (fun c self hself => hself.trans (call_called self c).continues)
    (Continues.refl start) calls

/-- A run completes no more pages than the cursor had left at its start. -/
theorem completedPages_le {start : HistoryCursor} (h : WellFormed start)
    (calls : List (Call nostr)) : completedPages start calls ≤ pagesLeft start := by
  induction calls generalizing start with
  | nil => exact Nat.zero_le _
  | cons c rest ih =>
    have hcalled := call_called start c
    have hrest := ih (hcalled.wellFormed h)
    have hle := hcalled.pagesLeft_le h
    rw [completedPages]
    omega

end HistoryCursor

end NostrPubsub
