import NostrPubsub.Routing.Routes
import NostrPubsub.ToMathlib.Mealy

/-!
# Routed live subscriptions

The subscription of `nostr-pubsub/src/live_routes.rs` over several live sources. Every source
calls back on its own; a callback takes the lock of the window of seen ids, inserts its id and
gives the lock back, and if the id was new it calls the handler of the user. `close` closes the
sources one by one and clears the window in the end. These are the steps of `LiveStep`, in any
order: a source may call back late, and any time may pass between an insertion and the handler
call it leads to.

- `SeenEvents.Valid`: the set and the queue of the window agree and are bounded;
- `LiveRoutes.window`: how far apart two deliveries of one event are.
-/

namespace NostrPubsub

/-- `DEFAULT_LIVE_DEDUP_EVENTS`. -/
def defaultLiveDedupEvents : ℕ := 4096

/-! ## The window of seen ids -/

/-- `SeenEvents`. -/
structure SeenEvents where
  maximum : ℕ
  ids : Finset EventId
  order : List EventId

namespace SeenEvents

/-- `SeenEvents::new`. -/
def new (maximum : ℕ) : SeenEvents := { maximum, ids := ∅, order := [] }

/-- The loop of `insert` that drops the oldest ids while there are too many. -/
def dropOldest (maximum : ℕ) : List EventId → Finset EventId → List EventId × Finset EventId
  | [], ids => ([], ids)
  | removed :: rest, ids =>
    if maximum < (removed :: rest).length then
      dropOldest maximum rest (ids.erase removed)
    else
      (removed :: rest, ids)

/-- `SeenEvents::insert`. -/
def insert (self : SeenEvents) (id : EventId) : Bool × SeenEvents :=
  if id ∈ self.ids then
    (false, self)
  else
    let dropped := dropOldest self.maximum (self.order ++ [id]) (Insert.insert id self.ids)
    (true, { self with order := dropped.1, ids := dropped.2 })

/-- `SeenEvents::clear`. -/
def clear (self : SeenEvents) : SeenEvents := { self with ids := ∅, order := [] }

/-- The set and the queue hold the same ids, no more than the maximum. -/
structure Valid (seen : SeenEvents) : Prop where
  ids_eq : seen.ids = seen.order.toFinset
  nodup : seen.order.Nodup
  length_le : seen.order.length ≤ seen.maximum

variable {self : SeenEvents}

theorem new_valid (maximum : ℕ) : (new maximum).Valid :=
  ⟨rfl, List.nodup_nil, Nat.zero_le _⟩

theorem clear_valid : self.clear.Valid :=
  ⟨rfl, List.nodup_nil, Nat.zero_le _⟩

theorem Valid.mem_ids (h : self.Valid) {id : EventId} : id ∈ self.ids ↔ id ∈ self.order := by
  rw [h.ids_eq, List.mem_toFinset]

theorem dropOldest_of_le {maximum : ℕ} {order : List EventId} (h : order.length ≤ maximum)
    (ids : Finset EventId) : dropOldest maximum order ids = (order, ids) := by
  cases order with
  | nil => rfl
  | cons removed rest => rw [dropOldest, if_neg (Nat.not_lt.mpr h)]

/-- What an insertion does: the id was seen; or there is room for it; or the oldest id goes. -/
theorem insert_cases (h : self.Valid) (hmaximum : 0 < self.maximum) (id : EventId) :
    (id ∈ self.order ∧ self.insert id = (false, self))
    ∨ (id ∉ self.order ∧ self.order.length < self.maximum
      ∧ self.insert id = (true, { self with
        order := self.order ++ [id], ids := Insert.insert id self.ids }))
    ∨ ∃ oldest rest, id ∉ self.order ∧ self.order = oldest :: rest
      ∧ self.order.length = self.maximum
      ∧ self.insert id = (true, { self with
        order := rest ++ [id], ids := (Insert.insert id self.ids).erase oldest }) := by
  by_cases hid : id ∈ self.order
  · exact .inl ⟨hid, by rw [insert, if_pos (h.mem_ids.mpr hid)]⟩
  · have hnew : id ∉ self.ids := mt h.mem_ids.mp hid
    right
    rcases Nat.lt_or_eq_of_le h.length_le with hroom | hfull
    · refine .inl ⟨hid, hroom, ?_⟩
      have hlength : (self.order ++ [id]).length ≤ self.maximum := by
        rw [List.length_append, List.length_singleton]
        exact hroom
      simp only [insert, if_neg hnew, dropOldest_of_le hlength]
    · right
      cases horder : self.order with
      | nil =>
        rw [horder, List.length_nil] at hfull
        omega
      | cons oldest rest =>
        rw [horder] at hid hfull
        refine ⟨oldest, rest, hid, rfl, hfull, ?_⟩
        -- One round of the loop: the queue is one too long.
        have hover : self.maximum < (oldest :: (rest ++ [id])).length := by
          simp only [List.length_cons, List.length_append, List.length_nil] at hfull ⊢
          omega
        have hlength : (rest ++ [id]).length ≤ self.maximum := by
          simp only [List.length_cons, List.length_append, List.length_nil] at hfull ⊢
          omega
        simp only [insert, if_neg hnew, horder, List.cons_append, dropOldest, if_pos hover,
          dropOldest_of_le hlength]

/-- A new id goes to the back of the queue. -/
theorem insert_last (h : self.Valid) (hmaximum : 0 < self.maximum) {id : EventId}
    {seen : SeenEvents} (hinsert : self.insert id = (true, seen)) :
    ∃ older newer, seen.order = older ++ id :: newer ∧ newer.length ≤ 0 := by
  rcases insert_cases h hmaximum id with
    ⟨-, hcase⟩ | ⟨-, -, hcase⟩ | ⟨oldest, rest, -, -, -, hcase⟩
  · rw [hcase] at hinsert
    cases hinsert
  · rw [hcase] at hinsert
    cases hinsert
    exact ⟨self.order, [], rfl, Nat.le_refl 0⟩
  · rw [hcase] at hinsert
    cases hinsert
    exact ⟨rest, [], rfl, Nat.le_refl 0⟩

@[simp]
theorem insert_maximum (id : EventId) : (self.insert id).2.maximum = self.maximum := by
  unfold insert
  split <;> rfl

theorem insert_valid (h : self.Valid) (hmaximum : 0 < self.maximum) (id : EventId) :
    (self.insert id).2.Valid := by
  rcases insert_cases h hmaximum id with
    ⟨-, hinsert⟩ | ⟨hid, hroom, hinsert⟩ | ⟨oldest, rest, hid, horder, hfull, hinsert⟩
  · rw [hinsert]
    exact h
  · rw [hinsert]
    refine ⟨?_, List.nodup_append_comm.mpr (List.nodup_cons.mpr ⟨hid, h.nodup⟩), ?_⟩
    · ext x
      rw [Finset.mem_insert, h.mem_ids, List.mem_toFinset, List.mem_append, List.mem_singleton,
        or_comm]
    · rw [List.length_append, List.length_singleton]
      exact hroom
  · rw [hinsert]
    have hnodup := h.nodup
    have hids := h.ids_eq
    rw [horder] at hnodup hid hfull hids
    rw [List.nodup_cons] at hnodup
    rw [List.mem_cons, not_or] at hid
    refine ⟨?_, List.nodup_append_comm.mpr (List.nodup_cons.mpr ⟨hid.2, hnodup.2⟩), ?_⟩
    · ext x
      simp only [hids, Finset.mem_erase, Finset.mem_insert, List.mem_toFinset, List.mem_cons,
        List.mem_append, List.not_mem_nil, or_false]
      constructor
      · rintro ⟨hne, rfl | rfl | hrest⟩
        · exact .inr rfl
        · exact absurd rfl hne
        · exact .inl hrest
      · rintro (hrest | rfl)
        · exact ⟨fun heq => hnodup.1 (heq ▸ hrest), .inr (.inr hrest)⟩
        · exact ⟨hid.1, .inl rfl⟩
    · simp only [List.length_cons, List.length_append, List.length_nil] at hfull ⊢
      omega

end SeenEvents

/-! ## Live sources -/

/-- `RoutedLiveEvent`. -/
structure RoutedLiveEvent (nostr : NostrCrate) where
  event : VerifiedEvent nostr
  source : EventSource
  priority : ℤ
  route : SourceRoute
  deriving DecidableEq

/-- The id of the event. -/
def RoutedLiveEvent.id {nostr : NostrCrate} (self : RoutedLiveEvent nostr) : EventId :=
  self.event.event.id

/-- `RoutedLiveSubscription` and the callbacks of its sources. -/
structure LiveRoutes (nostr : NostrCrate) where
  /-- The routes whose subscriptions are open. -/
  subscriptions : List SourceRoute
  seen : SeenEvents
  /-- What callbacks that inserted a new id are about to hand to the user. -/
  inFlight : List (RoutedLiveEvent nostr)
  /-- `close` has returned. -/
  closed : Bool

/-- A step of a source or of the subscription. -/
inductive LiveStep (nostr : NostrCrate) where
  /-- A source was subscribed to. -/
  | subscribed (route : SourceRoute)
  /-- The callback of a route locks the window and inserts the id of its event. -/
  | insert (route : SourceRoute) (incoming : QueryEvent nostr)
  /-- A callback that inserted a new id calls the handler. -/
  | callHandler (index : ℕ)
  /-- `close` closes the next subscription. -/
  | closeNext
  /-- `close` clears the window. -/
  | clear

/-- What a step leaves behind for an observer. -/
inductive LiveRecord (nostr : NostrCrate) where
  /-- A callback inserted an id that was not in the window. -/
  | inserted (id : EventId)
  /-- A callback found its id in the window. -/
  | duplicate (id : EventId)
  /-- The handler was called. -/
  | called (delivered : RoutedLiveEvent nostr)
  /-- The window was cleared. -/
  | cleared
  | silent
  deriving DecidableEq

variable {nostr : NostrCrate}

namespace LiveRoutes

/-- The start of `subscribe_routes_with_policy`. -/
def start (maxSeenEvents : ℕ) : Except PubsubError (LiveRoutes nostr) :=
  if maxSeenEvents = 0 then
    .error (.validation "live route deduplication limit must be positive")
  else
    .ok { subscriptions := [], seen := SeenEvents.new maxSeenEvents, inFlight := [], closed := false }

/-- One step. -/
def step (op : LiveStep nostr) (self : LiveRoutes nostr) : LiveRecord nostr × LiveRoutes nostr :=
  match op with
  | .subscribed route => (.silent, { self with subscriptions := self.subscriptions ++ [route] })
  | .insert route incoming =>
    let eventId := incoming.event.event.id
    let inserted := self.seen.insert eventId
    if inserted.1 then
      let delivered :=
        { event := incoming.event, source := incoming.source, priority := incoming.priority, route }
      (.inserted eventId,
        { self with seen := inserted.2, inFlight := self.inFlight ++ [delivered] })
    else
      (.duplicate eventId, { self with seen := inserted.2 })
  | .callHandler index =>
    match self.inFlight[index]? with
    | some delivered => (.called delivered, { self with inFlight := self.inFlight.eraseIdx index })
    | none => (.silent, self)
  | .closeNext => (.silent, { self with subscriptions := self.subscriptions.drop 1 })
  | .clear =>
    -- Only after the last subscription, and only once: `close` takes the subscription.
    if self.subscriptions = [] ∧ self.closed = false then
      (.cleared, { self with seen := self.seen.clear, closed := true })
    else
      (.silent, self)

/-- What an observer records of a run. -/
def records (live : LiveRoutes nostr) (steps : List (LiveStep nostr)) : List (LiveRecord nostr) :=
  Mealy.outputs step live steps

end LiveRoutes

/-- The record is the first sight of an id other than `id`. -/
def LiveRecord.insertsOther (id : EventId) : LiveRecord nostr → Bool
  | .inserted other => other ≠ id
  | _ => false

/-- The record is the first sight of `id`. -/
def LiveRecord.inserts (id : EventId) : LiveRecord nostr → Bool
  | .inserted other => other = id
  | _ => false

/-- The record is a handler call for `id`. -/
def LiveRecord.calls (id : EventId) : LiveRecord nostr → Bool
  | .called delivered => delivered.id = id
  | _ => false

/-! ## What a step can do -/

namespace LiveRoutes

/-- What a step does to the window and to the callbacks in flight. -/
inductive Stepped (live next : LiveRoutes nostr) : LiveRecord nostr → Prop where
  | inserted {id : EventId} {delivered : RoutedLiveEvent nostr} (hid : delivered.id = id)
      (hseen : live.seen.insert id = (true, next.seen))
      (hflight : next.inFlight = live.inFlight ++ [delivered]) : Stepped live next (.inserted id)
  | duplicate {id : EventId} (hseen : live.seen.insert id = (false, next.seen))
      (hflight : next.inFlight = live.inFlight) : Stepped live next (.duplicate id)
  | called {delivered : RoutedLiveEvent nostr} (hseen : next.seen = live.seen)
      (hflight : live.inFlight.Perm (delivered :: next.inFlight)) :
      Stepped live next (.called delivered)
  | cleared (hseen : next.seen = live.seen.clear) (hflight : next.inFlight = live.inFlight) :
      Stepped live next .cleared
  | silent (hseen : next.seen = live.seen) (hflight : next.inFlight = live.inFlight) :
      Stepped live next .silent

theorem step_stepped (op : LiveStep nostr) (live : LiveRoutes nostr) :
    Stepped live (step op live).2 (step op live).1 := by
  cases op with
  | subscribed route => exact .silent rfl rfl
  | insert route incoming =>
    simp only [step]
    rcases hinsert : live.seen.insert incoming.event.event.id with ⟨_ | _, seen⟩
    · exact .duplicate hinsert rfl
    · exact .inserted rfl hinsert rfl
  | callHandler index =>
    simp only [step]
    cases hentry : live.inFlight[index]? with
    | none => exact .silent rfl rfl
    | some delivered =>
      obtain ⟨hindex, rfl⟩ := List.getElem?_eq_some_iff.mp hentry
      exact .called rfl (List.getElem_cons_eraseIdx_perm hindex).symm
  | closeNext => exact .silent rfl rfl
  | clear =>
    simp only [step]
    split
    · exact .cleared rfl rfl
    · exact .silent rfl rfl

/-- The window keeps its bound. -/
theorem Stepped.valid {live next : LiveRoutes nostr} {record : LiveRecord nostr}
    (h : Stepped live next record) (hvalid : live.seen.Valid) (hmaximum : 0 < live.seen.maximum) :
    next.seen.Valid ∧ next.seen.maximum = live.seen.maximum := by
  cases h with
  | @inserted id _ _ hseen _ =>
    have hnext : next.seen = (live.seen.insert id).2 := by rw [hseen]
    rw [hnext]
    exact ⟨SeenEvents.insert_valid hvalid hmaximum id, SeenEvents.insert_maximum id⟩
  | @duplicate id hseen _ =>
    have hnext : next.seen = (live.seen.insert id).2 := by rw [hseen]
    rw [hnext]
    exact ⟨SeenEvents.insert_valid hvalid hmaximum id, SeenEvents.insert_maximum id⟩
  | called hseen _ =>
    rw [hseen]
    exact ⟨hvalid, rfl⟩
  | cleared hseen _ =>
    rw [hseen]
    exact ⟨SeenEvents.clear_valid, rfl⟩
  | silent hseen _ =>
    rw [hseen]
    exact ⟨hvalid, rfl⟩

/-- Every handler call uses up one callback in flight, and every first sight starts one. -/
theorem Stepped.count {live next : LiveRoutes nostr} {record : LiveRecord nostr}
    (h : Stepped live next record) (id : EventId) :
    next.inFlight.countP (fun delivered => delivered.id = id)
        + (if record.calls id then 1 else 0)
      = live.inFlight.countP (fun delivered => delivered.id = id)
        + if record.inserts id then 1 else 0 := by
  cases h with
  | inserted hid _ hflight =>
    rw [hflight, List.countP_append, List.countP_singleton, hid]
    rfl
  | duplicate _ hflight => rw [hflight]; rfl
  | called _ hflight =>
    rw [hflight.countP_eq, List.countP_cons]
    rfl
  | cleared _ hflight => rw [hflight]; rfl
  | silent _ hflight => rw [hflight]; rfl

/-! ## The window -/

/-- How an id that was inserted fares: it is in the queue with what came later behind it, or it
was dropped after `maximum` others. -/
def Since (id : EventId) (others : ℕ) (seen : SeenEvents) : Prop :=
  (∃ older newer, seen.order = older ++ id :: newer ∧ newer.length ≤ others)
  ∨ (id ∉ seen.order ∧ seen.maximum ≤ others)

/-- An insertion of another id. -/
theorem Since.insert {seen : SeenEvents} (hvalid : seen.Valid) (hmaximum : 0 < seen.maximum)
    {id other : EventId} {others : ℕ} (hsince : Since id others seen) (hne : other ≠ id)
    {seen' : SeenEvents} (hinsert : seen.insert other = (true, seen')) :
    Since id (others + 1) seen' := by
  rcases SeenEvents.insert_cases hvalid hmaximum other with
    ⟨-, hcase⟩ | ⟨-, -, hcase⟩ | ⟨oldest, rest, -, horder, hfull, hcase⟩
  · rw [hcase] at hinsert
    cases hinsert
  · rw [hcase] at hinsert
    cases hinsert
    rcases hsince with ⟨older, newer, hplace, hnewer⟩ | ⟨hgone, hothers⟩
    · refine .inl ⟨older, newer ++ [other], ?_, ?_⟩
      · simp [hplace]
      · simpa using hnewer
    · refine .inr ⟨?_, hothers.trans (Nat.le_succ others)⟩
      simp [hgone, Ne.symm hne]
  · rw [hcase] at hinsert
    cases hinsert
    rcases hsince with ⟨older, newer, hplace, hnewer⟩ | ⟨hgone, hothers⟩
    · rw [horder] at hplace
      cases older with
      | nil =>
        -- The id itself is the oldest: as many others are behind it as the window holds.
        rw [List.nil_append, List.cons.injEq] at hplace
        obtain ⟨rfl, rfl⟩ := hplace
        have hnodup := hvalid.nodup
        rw [horder, List.nodup_cons] at hnodup
        rw [horder, List.length_cons] at hfull
        refine .inr ⟨?_, ?_⟩
        · simp [hnodup.1, Ne.symm hne]
        · change seen.maximum ≤ others + 1
          omega
      | cons first older =>
        rw [List.cons_append, List.cons.injEq] at hplace
        refine .inl ⟨older, newer ++ [other], ?_, ?_⟩
        · simp [hplace.2]
        · simpa using hnewer
    · refine .inr ⟨?_, hothers.trans (Nat.le_succ others)⟩
      rw [horder, List.mem_cons, not_or] at hgone
      simp [hgone.2, Ne.symm hne]

/-- A step that is neither a clear nor an insertion of the id itself. -/
theorem Since.step {live next : LiveRoutes nostr} {record : LiveRecord nostr}
    (h : Stepped live next record) (hvalid : live.seen.Valid) (hmaximum : 0 < live.seen.maximum)
    {id : EventId} {others : ℕ} (hsince : Since id others live.seen)
    (hclear : record ≠ .cleared) (hid : record ≠ .inserted id) :
    Since id (others + if record.insertsOther id then 1 else 0) next.seen := by
  cases h with
  | @inserted other _ _ hseen _ =>
    have hne : other ≠ id := fun heq => hid (heq ▸ rfl)
    simp only [LiveRecord.insertsOther, hne, ne_eq, not_false_eq_true, decide_true, if_true]
    exact hsince.insert hvalid hmaximum hne hseen
  | @duplicate other hseen _ =>
    rcases SeenEvents.insert_cases hvalid hmaximum other with
      ⟨-, hcase⟩ | ⟨-, -, hcase⟩ | ⟨_, _, -, -, -, hcase⟩
    · rw [hcase, Prod.mk.injEq] at hseen
      rw [← hseen.2]
      exact hsince
    · rw [hcase] at hseen
      cases hseen
    · rw [hcase] at hseen
      cases hseen
  | called hseen _ =>
    rw [hseen]
    exact hsince
  | cleared _ _ => exact absurd rfl hclear
  | silent hseen _ =>
    rw [hseen]
    exact hsince

/-- The id is inserted again only after it was dropped. -/
theorem Since.maximum_le {live next : LiveRoutes nostr} {id : EventId}
    (h : Stepped live next (.inserted id)) (hvalid : live.seen.Valid) {others : ℕ}
    (hsince : Since id others live.seen) : live.seen.maximum ≤ others := by
  cases h with
  | inserted _ hseen _ =>
    rcases hsince with ⟨older, newer, hplace, -⟩ | ⟨-, hothers⟩
    · have hmem : id ∈ live.seen.ids := hvalid.mem_ids.mpr (by simp [hplace])
      rw [SeenEvents.insert, if_pos hmem] at hseen
      cases hseen
    · exact hothers

/-- Between an insertion of an id and the next one. -/
theorem window_of_since {live : LiveRoutes nostr} (hvalid : live.seen.Valid)
    (hmaximum : 0 < live.seen.maximum) {id : EventId} {others : ℕ}
    (hsince : Since id others live.seen) {steps : List (LiveStep nostr)}
    {between after : List (LiveRecord nostr)}
    (hrecords : records live steps = between ++ .inserted id :: after)
    (hclear : .cleared ∉ between) :
    live.seen.maximum ≤ others + between.countP (·.insertsOther id) := by
  induction between generalizing live others steps with
  | nil =>
    cases steps with
    | nil => cases hrecords
    | cons op steps =>
      rw [records, Mealy.outputs_cons, List.nil_append, List.cons.injEq] at hrecords
      have hstep := step_stepped op live
      rw [hrecords.1] at hstep
      exact hsince.maximum_le hstep hvalid
  | cons record between ih =>
    cases steps with
    | nil => cases hrecords
    | cons op steps =>
      rw [records, Mealy.outputs_cons, List.cons_append, List.cons.injEq] at hrecords
      rw [List.mem_cons, not_or] at hclear
      have hstep := step_stepped op live
      rw [hrecords.1] at hstep
      by_cases hid : record = .inserted id
      · rw [hid] at hstep
        exact (hsince.maximum_le hstep hvalid).trans (Nat.le_add_right _ _)
      · obtain ⟨hvalid', hsame⟩ := hstep.valid hvalid hmaximum
        have hsince' := hsince.step hstep hvalid hmaximum (Ne.symm hclear.1) hid
        have hle := ih hvalid' (hsame ▸ hmaximum) hsince' hrecords.2 hclear.2
        rw [hsame] at hle
        rw [List.countP_cons]
        omega

/-! ## Runs -/

/-- What holds in every state of a run. -/
theorem run_valid {maximum : ℕ} {live : LiveRoutes nostr} (hstart : start maximum = .ok live)
    (steps : List (LiveStep nostr)) :
    (Mealy.after step live steps).seen.Valid
      ∧ 0 < (Mealy.after step live steps).seen.maximum
      ∧ (Mealy.after step live steps).seen.maximum = maximum := by
  have hinit : live.seen.Valid ∧ 0 < live.seen.maximum ∧ live.seen.maximum = maximum := by
    unfold start at hstart
    split at hstart
    · cases hstart
    · next hpositive =>
      cases hstart
      exact ⟨SeenEvents.new_valid maximum, Nat.pos_of_ne_zero hpositive, rfl⟩
  refine Mealy.invariant (I := fun live : LiveRoutes nostr => live.seen.Valid
    ∧ 0 < live.seen.maximum ∧ live.seen.maximum = maximum) ?_ hinit steps
  rintro op live ⟨hvalid, hpositive, hmaximum⟩
  obtain ⟨hvalid', hsame⟩ := (step_stepped op live).valid hvalid hpositive
  exact ⟨hvalid', hsame ▸ hpositive, hsame.trans hmaximum⟩

/-- Every handler call belongs to one insertion before it. -/
theorem run_count {maximum : ℕ} {live : LiveRoutes nostr} (hstart : start maximum = .ok live)
    (steps : List (LiveStep nostr)) (id : EventId) :
    (records live steps).countP (·.calls id)
        + (Mealy.after step live steps).inFlight.countP (fun delivered => delivered.id = id)
      = (records live steps).countP (·.inserts id) := by
  have hinit : live.inFlight = [] := by
    unfold start at hstart
    split at hstart
    · cases hstart
    · cases hstart
      rfl
  induction steps using List.reverseRecOn with
  | nil => simp [records, hinit]
  | append_singleton steps op ih =>
    have hcount := (step_stepped op (Mealy.after step live steps)).count id
    rw [records, Mealy.outputs_concat, List.countP_append, List.countP_append,
      Mealy.after_concat, List.countP_singleton, List.countP_singleton]
    rw [records] at ih
    omega

/-- For any interleaving of callbacks and `close`: between the insertions of two callbacks that
hand the same event to the user, `maximum` other ids are inserted, unless `close` clears the
window in between; every handler call belongs to one such insertion before it; and the set and
the queue of the window hold the same ids, at most `maximum`. -/
theorem window {maximum : ℕ} {live : LiveRoutes nostr} (hstart : start maximum = .ok live)
    (steps : List (LiveStep nostr)) :
    (∀ id before between after,
      records live steps = before ++ .inserted id :: (between ++ .inserted id :: after) →
      .cleared ∉ between → maximum ≤ between.countP (·.insertsOther id))
    ∧ (∀ id, (records live steps).countP (·.calls id)
        + (Mealy.after step live steps).inFlight.countP (fun delivered => delivered.id = id)
      = (records live steps).countP (·.inserts id))
    ∧ (Mealy.after step live steps).seen.ids = (Mealy.after step live steps).seen.order.toFinset
    ∧ (Mealy.after step live steps).seen.order.Nodup
    ∧ (Mealy.after step live steps).seen.order.length ≤ maximum := by
  obtain ⟨hvalid, -, hmaximum⟩ := run_valid hstart steps
  refine ⟨?_, run_count hstart steps, hvalid.ids_eq, hvalid.nodup, hmaximum ▸ hvalid.length_le⟩
  intro id before between after hrecords hclear
  obtain ⟨earlier, op, later, -, -, hop, hlater⟩ := Mealy.exists_of_outputs_eq step hrecords
  obtain ⟨hvalid, hpositive, hmaximum⟩ := run_valid hstart earlier
  have hstep := step_stepped op (Mealy.after step live earlier)
  obtain ⟨hvalid', hsame⟩ := hstep.valid hvalid hpositive
  -- The id has just gone to the back of the queue.
  have hsince : Since id 0 (step op (Mealy.after step live earlier)).2.seen := by
    rw [hop] at hstep
    cases hstep with
    | inserted _ hseen _ => exact .inl (SeenEvents.insert_last hvalid hpositive hseen)
  have hle := window_of_since hvalid' (hsame ▸ hpositive) hsince hlater hclear
  rw [hsame, hmaximum] at hle
  omega

/-! ## Handler calls

The handler is called outside the lock, so the calls for one event may be much closer to each
other than the insertions they belong to. -/

/-- Between two handler calls for one event, `maximum` other ids are inserted. -/
def HandlerWindow (maximum : ℕ) (records : List (LiveRecord nostr)) : Prop :=
  ∀ before between after first second,
    records = before ++ .called first :: (between ++ .called second :: after) →
    first.id = second.id → maximum ≤ between.countP (·.insertsOther first.id)

/-- The subscription before its sources are opened. -/
def fresh (maximum : ℕ) : LiveRoutes noteCrate where
  subscriptions := []
  seen := SeenEvents.new maximum
  inFlight := []
  closed := false

/-- A route to an index or to a peer. -/
def noteRoute (id : String) (kind : EventSourceKind) : SourceRoute where
  id := id
  datasetId := "default"
  source := { id, kind, url := none }
  priority := kind.defaultPriority
  reason := none
  capabilities := []

/-- A note as it comes from a route. -/
def noteFrom (route : SourceRoute) (event : VerifiedEvent noteCrate) : QueryEvent noteCrate where
  event := event
  source := route.source
  priority := 0

/-- A note as the handler gets it. -/
def deliveredFrom (route : SourceRoute) (event : VerifiedEvent noteCrate) :
    RoutedLiveEvent noteCrate where
  event := event
  source := route.source
  priority := 0
  route := route

/-- A note is delivered from an index; `close` closes both sources and clears the window; then
the peer delivers the note late. -/
def lateSteps : List (LiveStep noteCrate) :=
  [.subscribed (noteRoute "index" .localIndex), .subscribed (noteRoute "peer" .peer),
    .insert (noteRoute "index" .localIndex) (noteFrom (noteRoute "index" .localIndex) verifiedA),
    .callHandler 0, .closeNext, .closeNext, .clear,
    .insert (noteRoute "peer" .peer) (noteFrom (noteRoute "peer" .peer) verifiedA),
    .callHandler 0]

/-- A callback inserts a note and is delayed before it calls the handler; another note pushes
the first one out of a window of one, and it comes again from the peer. -/
def delayedSteps : List (LiveStep noteCrate) :=
  [.insert (noteRoute "index" .localIndex) (noteFrom (noteRoute "index" .localIndex) verifiedA),
    .insert (noteRoute "peer" .peer) (noteFrom (noteRoute "peer" .peer) verifiedB),
    .insert (noteRoute "peer" .peer) (noteFrom (noteRoute "peer" .peer) verifiedA),
    .callHandler 0, .callHandler 1]

theorem records_lateSteps :
    records (fresh defaultLiveDedupEvents) lateSteps
      = [.silent, .silent, .inserted noteA.id]
        ++ .called (deliveredFrom (noteRoute "index" .localIndex) verifiedA)
          :: ([.silent, .silent, .cleared, .inserted noteA.id]
            ++ .called (deliveredFrom (noteRoute "peer" .peer) verifiedA) :: []) := by
  decide +kernel

theorem records_delayedSteps :
    records (fresh 1) delayedSteps
      = [.inserted noteA.id, .inserted noteB.id, .inserted noteA.id]
        ++ .called (deliveredFrom (noteRoute "index" .localIndex) verifiedA)
          :: ([] ++ .called (deliveredFrom (noteRoute "peer" .peer) verifiedA) :: []) := by
  decide +kernel

/-- Two handler calls for one event with no insertion of another id between them: because `close`
cleared the window, and because the first call was delayed. -/
theorem not_handlerWindow_late_delayed :
    (start defaultLiveDedupEvents = .ok (fresh defaultLiveDedupEvents)
      ∧ ¬ HandlerWindow defaultLiveDedupEvents (records (fresh defaultLiveDedupEvents) lateSteps))
    ∧ start 1 = .ok (fresh 1) ∧ ¬ HandlerWindow 1 (records (fresh 1) delayedSteps) := by
  refine ⟨⟨rfl, fun hwindow => ?_⟩, rfl, fun hwindow => ?_⟩
  · have hle := hwindow _ _ _ _ _ records_lateSteps rfl
    revert hle
    decide +kernel
  · have hle := hwindow _ _ _ _ _ records_delayedSteps rfl
    revert hle
    decide +kernel

/-- A window of one: the second note comes between the two insertions of the first. -/
theorem window_delayedSteps :
    1 ≤ ([.inserted noteB.id] : List (LiveRecord noteCrate)).countP (·.insertsOther noteA.id)
    ∧ (Mealy.after step (fresh 1) delayedSteps).seen.order.length ≤ 1 := by
  have hstart : start 1 = .ok (fresh 1) := rfl
  have hwindow := window hstart delayedSteps
  exact ⟨hwindow.1 noteA.id [] [.inserted noteB.id] _ records_delayedSteps (by decide +kernel),
    hwindow.2.2.2.2⟩

end LiveRoutes

end NostrPubsub
