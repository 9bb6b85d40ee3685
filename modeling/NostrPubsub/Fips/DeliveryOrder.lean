import NostrPubsub.Fips.LocalDelivery

/-!
# What the consumer of a subscription sees

What an action can do is said once (`Moved`, `step_moved`). From it follows what holds in every
state: the ids that were delivered form a window over what entered the channel, the overflow queue
is as its set of ids says, and a subscription that ended closes its channel once it is drained
(`Guarded`). The events arrive in the order in which they were accepted as long as the consumer
takes nothing at the one place where a new event can overtake pending ones (`Ordered`,
`localDelivery_fifo`).
-/

namespace NostrPubsub.Fips

variable {nostr : NostrCrate}

theorem Channel.trySend_cases {α : Type} (a : α) (channel : Channel α) :
    (channel.receiverDropped = true ∧ channel.trySend a = (.closed, channel)) ∨
    (channel.receiverDropped = false ∧ channel.buffer.length < channel.capacity ∧
      channel.trySend a = (.ok, { channel with buffer := channel.buffer ++ [a] })) ∨
    (channel.receiverDropped = false ∧ channel.capacity ≤ channel.buffer.length ∧
      channel.trySend a = (.full, channel)) := by
  by_cases hreceiver : channel.receiverDropped = true
  · exact .inl ⟨hreceiver, if_pos hreceiver⟩
  · have hopen : channel.receiverDropped = false := by simpa using hreceiver
    by_cases hroom : channel.buffer.length < channel.capacity
    · exact .inr (.inl ⟨hopen, hroom, by rw [trySend, if_neg hreceiver, if_pos hroom]⟩)
    · exact .inr (.inr ⟨hopen, Nat.le_of_not_lt hroom,
        by rw [trySend, if_neg hreceiver, if_neg hroom]⟩)

namespace DeliveryState

/-- A turn of the refill admits a pending event, or ends the refill. -/
theorem refillTurn_cases (state : DeliveryState nostr) (channel : Channel (QueryEvent nostr)) :
    (∃ event rest, state.pending = event :: rest ∧ channel.receiverDropped = false ∧
      channel.buffer.length < channel.capacity ∧
      state.refillTurn channel = (true, { state with
          pending := rest
          pendingIds := state.pendingIds.erase (eventKey event) }.markDelivered (eventKey event),
        { channel with buffer := channel.buffer ++ [event] })) ∨
    ((state.pending = [] ∨ state.senderOpen = false ∨
        channel.receiverDropped = false ∧ channel.capacity ≤ channel.buffer.length) ∧
      state.refillTurn channel = (false, state.finishRefill, channel)) ∨
    (channel.receiverDropped = true ∧ state.refillTurn channel =
      (false, { state with pending := [], pendingIds := ∅ }.close.finishRefill, channel)) := by
  rw [refillTurn]
  split
  · next hpending => exact .inr (.inl ⟨.inl hpending, rfl⟩)
  · next event rest hpending =>
    split
    · rcases channel.trySend_cases event with ⟨hreceiver, hsend⟩ | ⟨hreceiver, hroom, hsend⟩ |
        ⟨hreceiver, hfull, hsend⟩
      · exact .inr (.inr ⟨hreceiver, by rw [hsend]⟩)
      · exact .inl ⟨event, rest, hpending, hreceiver, hroom, by rw [hsend]⟩
      · exact .inr (.inl ⟨.inr (.inr ⟨hreceiver, hfull⟩), by rw [hsend]⟩)
    · next hsender => exact .inr (.inl ⟨.inr (.inl (by simpa using hsender)), rfl⟩)

/-- The end of `enqueue` admits the event, keeps it pending or refuses it. -/
theorem send_cases (event : QueryEvent nostr) (state : DeliveryState nostr)
    (channel : Channel (QueryEvent nostr)) :
    (channel.receiverDropped = false ∧ channel.buffer.length < channel.capacity ∧
      state.send event channel = (true, state.markDelivered (eventKey event),
        { channel with buffer := channel.buffer ++ [event] })) ∨
    (state.senderOpen = true ∧ channel.receiverDropped = false ∧
      channel.capacity ≤ channel.buffer.length ∧ state.pending.length ≠ state.maximumPending ∧
      state.send event channel = (true, { state with
          pending := state.pending ++ [event]
          pendingIds := insert (eventKey event) state.pendingIds }, channel)) ∨
    ∃ refused, (refused = state ∧ state.senderOpen = false ∨
        refused = { state with status := .lagged } ∧ channel.capacity ≤ channel.buffer.length ∨
        refused = state.close ∧ channel.receiverDropped = true) ∧
      state.send event channel = (false, refused, channel) := by
  rw [send]
  split
  · next hsender =>
    rcases channel.trySend_cases event with ⟨hreceiver, hsend⟩ | ⟨hreceiver, hroom, hsend⟩ |
      ⟨hreceiver, hfull, hsend⟩
    · exact .inr (.inr ⟨state.close, .inr (.inr ⟨rfl, hreceiver⟩), by rw [hsend]⟩)
    · exact .inl ⟨hreceiver, hroom, by rw [hsend]⟩
    · rw [hsend]
      by_cases hpending : state.pending.length = state.maximumPending
      · exact .inr (.inr ⟨_, .inr (.inl ⟨rfl, hfull⟩), if_pos hpending⟩)
      · exact .inr (.inl ⟨hsender, hreceiver, hfull, hpending, if_neg hpending⟩)
  · next hsender => exact .inr (.inr ⟨state, .inl ⟨rfl, by simpa using hsender⟩, rfl⟩)

end DeliveryState

/-- The event that the producer with the mutex enqueues. -/
def Lock.enqueued : Lock nostr → Option (QueryEvent nostr)
  | .free => none
  | .refilling enqueued => enqueued
  | .sending event => some event

namespace System

/-! ## What an action does -/

/-- What an action can do. -/
inductive Moved (action : Action nostr) (s : System nostr) : System nostr → Prop
  | unchanged : Moved action s s
  | enqueued {event : QueryEvent nostr} (hlock : s.lock = .free)
      (hadmits : s.delivery.Admits event) :
      Moved action s { s with lock := .refilling (some event) }
  | closed (hlock : s.lock = .free) : Moved action s { s with delivery := s.delivery.close }
  | refills (hlock : s.lock = .free) : Moved action s { s with lock := .refilling none }
  /-- A pending event enters the channel. -/
  | refilled {enqueued : Option (QueryEvent nostr)} {event : QueryEvent nostr}
      {rest : List (QueryEvent nostr)} (hlock : s.lock = .refilling enqueued)
      (hpending : s.delivery.pending = event :: rest) (hreceiver : s.channel.receiverDropped = false)
      (hroom : s.channel.buffer.length < s.channel.capacity) :
      Moved action s { s with
        delivery := { s.delivery with
          pending := rest
          pendingIds := s.delivery.pendingIds.erase (eventKey event) }.markDelivered (eventKey event)
        channel := { s.channel with buffer := s.channel.buffer ++ [event] } }
  /-- A refill ends: nothing is pending, the channel is full, or it is closed. -/
  | finished {enqueued : Option (QueryEvent nostr)} {delivery : DeliveryState nostr}
      (hlock : s.lock = .refilling enqueued)
      (hdelivery : delivery = s.delivery ∧ (s.delivery.pending = [] ∨ s.delivery.senderOpen = false ∨
          s.channel.receiverDropped = false ∧ s.channel.capacity ≤ s.channel.buffer.length) ∨
        delivery = { s.delivery with pending := [], pendingIds := ∅ }.close ∧
          s.channel.receiverDropped = true) :
      Moved action s ({ s with delivery := delivery.finishRefill }.afterRefill enqueued)
  /-- A new event enters the channel. -/
  | sent {event : QueryEvent nostr} (hlock : s.lock = .sending event)
      (hreceiver : s.channel.receiverDropped = false)
      (hroom : s.channel.buffer.length < s.channel.capacity) :
      Moved action s { s with
        delivery := s.delivery.markDelivered (eventKey event)
        channel := { s.channel with buffer := s.channel.buffer ++ [event] }
        lock := .free
        accepted := s.accepted ++ [event] }
  /-- A new event becomes pending. -/
  | deferred {event : QueryEvent nostr} (hlock : s.lock = .sending event)
      (hsender : s.delivery.senderOpen = true) (hreceiver : s.channel.receiverDropped = false)
      (hfull : s.channel.capacity ≤ s.channel.buffer.length)
      (hpending : s.delivery.pending.length ≠ s.delivery.maximumPending) :
      Moved action s { s with
        delivery := { s.delivery with
          pending := s.delivery.pending ++ [event]
          pendingIds := insert (eventKey event) s.delivery.pendingIds }
        lock := .free
        accepted := s.accepted ++ [event] }
  /-- A new event is refused. -/
  | refused {event : QueryEvent nostr} {delivery : DeliveryState nostr}
      (hlock : s.lock = .sending event)
      (hdelivery : delivery = s.delivery ∧ s.delivery.senderOpen = false ∨
        delivery = { s.delivery with status := .lagged } ∧
          s.channel.capacity ≤ s.channel.buffer.length ∨
        delivery = s.delivery.close ∧ s.channel.receiverDropped = true) :
      Moved action s { s with delivery, lock := .free }
  | took {event : QueryEvent nostr} {rest : List (QueryEvent nostr)} (haction : action = .take)
      (hphase : s.phase = .taking) (hreceiver : s.channel.receiverDropped = false)
      (hbuffer : s.channel.buffer = event :: rest) :
      Moved action s { s with
        phase := .taken
        taken := s.taken ++ [event]
        channel := { s.channel with buffer := rest } }
  | tookNothing (hphase : s.phase = .taking) : Moved action s { s with phase := .taken }
  | dropped : Moved action s { s with channel := { s.channel with receiverDropped := true } }

theorem proceed_moved (action : Action nostr) (s : System nostr) : Moved action s s.proceed := by
  rw [proceed]
  split
  · exact .unchanged
  · next enqueued hlock =>
    rcases s.delivery.refillTurn_cases s.channel with
      ⟨event, rest, hpending, hreceiver, hroom, hturn⟩ | ⟨hends, hturn⟩ | ⟨hreceiver, hturn⟩
    · simp only [hturn, if_true]
      exact .refilled hlock hpending hreceiver hroom
    · simp only [hturn, Bool.false_eq_true, if_false]
      exact .finished hlock (.inl ⟨rfl, hends⟩)
    · simp only [hturn, Bool.false_eq_true, if_false]
      exact .finished hlock (.inr ⟨rfl, hreceiver⟩)
  · next event hlock =>
    rcases s.delivery.send_cases event s.channel with ⟨hreceiver, hroom, hsend⟩ |
      ⟨hsender, hreceiver, hfull, hpending, hsend⟩ | ⟨refused, hrefused, hsend⟩
    · simp only [hsend, if_true]
      exact .sent hlock hreceiver hroom
    · simp only [hsend, if_true]
      exact .deferred hlock hsender hreceiver hfull hpending
    · simp only [hsend, Bool.false_eq_true, if_false]
      exact .refused hlock hrefused

/-- Every action does one of these. -/
theorem step_moved (action : Action nostr) (s : System nostr) : Moved action s (step action s).2 := by
  unfold step
  split
  · next event hlock =>
    split
    · next hadmits => exact .enqueued hlock hadmits
    · exact .unchanged
  · next hlock => exact .closed hlock
  · exact proceed_moved _ s
  · next hlock =>
    split
    · exact .unchanged
    · exact .refills hlock
  · split
    · next htaking =>
      rw [take]
      split
      · exact .tookNothing htaking.1
      · next event rest hbuffer =>
        exact .took rfl htaking.1 (by simpa using htaking.2) hbuffer
    · exact .unchanged
  · exact .unchanged
  · split
    · exact .dropped
    · exact .unchanged
  · exact .unchanged

end System

/-! ## The window of delivered ids -/

namespace DeliveryState

/-- The delivered ids are the last ones that entered the channel, and nothing entered it while it
was among them. -/
structure Window (admitted : List String) (state : DeliveryState nostr) : Prop where
  order_eq : state.deliveredOrder = admitted.rtake maxSeenEventIds
  ids_eq : state.deliveredIds = state.deliveredOrder.toFinset
  spaced : admitted.Spaced maxSeenEventIds

variable {admitted : List String} {state : DeliveryState nostr} {id : String}

theorem Window.markDelivered_eq (h : Window admitted state) (hfresh : id ∉ state.deliveredOrder) :
    state.markDelivered id = { state with
      deliveredOrder := (admitted ++ [id]).rtake maxSeenEventIds
      deliveredIds := ((admitted ++ [id]).rtake maxSeenEventIds).toFinset } := by
  have hnodup : (state.deliveredOrder ++ [id]).Nodup := by
    rw [List.nodup_append]
    refine ⟨h.order_eq ▸ h.spaced.nodup_rtake, List.nodup_singleton id, ?_⟩
    rintro a ha b hb rfl
    exact hfresh (List.mem_singleton.mp hb ▸ ha)
  have hids : insert id state.deliveredIds = (state.deliveredOrder ++ [id]).toFinset := by
    rw [h.ids_eq, List.toFinset_append, Finset.union_comm]
    rfl
  rw [markDelivered, hids, keepLast_eq hnodup, h.order_eq, List.rtake_rtake_concat]

theorem Window.markDelivered (h : Window admitted state) (hfresh : id ∉ state.deliveredOrder) :
    Window (admitted ++ [id]) (state.markDelivered id) := by
  rw [h.markDelivered_eq hfresh]
  exact ⟨rfl, rfl, h.spaced.concat (h.order_eq ▸ hfresh)⟩

theorem Window.mem_of_mem_markDelivered (h : Window admitted state)
    (hfresh : id ∉ state.deliveredOrder) {other : String}
    (hmem : other ∈ (state.markDelivered id).deliveredOrder) :
    other ∈ state.deliveredOrder ∨ other = id := by
  rw [h.markDelivered_eq hfresh] at hmem
  rw [h.order_eq]
  exact List.mem_of_mem_rtake_concat hmem

end DeliveryState

namespace System

/-- The keys of what entered the channel, in that order. -/
def admittedKeys (s : System nostr) : List String := s.admitted.map eventKey

/-- The keys of the pending events. -/
def pendingKeys (s : System nostr) : List String := s.delivery.pending.map eventKey

/-- What the guarded state says of the ids is true. -/
structure Tracked (s : System nostr) : Prop where
  window : s.delivery.Window s.admittedKeys
  pendingIds_eq : s.delivery.pendingIds = s.pendingKeys.toFinset
  nodup : s.pendingKeys.Nodup
  fresh : ∀ id ∈ s.pendingKeys, id ∉ s.delivery.deliveredOrder
  enqueued : ∀ event, s.lock.enqueued = some event →
    eventKey event ∉ s.delivery.deliveredOrder ∧ eventKey event ∉ s.pendingKeys
  length_le : s.delivery.pending.length ≤ s.delivery.maximumPending

variable {s s' : System nostr} {action : Action nostr}

/-- The ids depend on the queues and on who enqueues only. -/
theorem Tracked.congr (h : s.Tracked)
    (horder : s'.delivery.deliveredOrder = s.delivery.deliveredOrder)
    (hids : s'.delivery.deliveredIds = s.delivery.deliveredIds)
    (hpending : s'.delivery.pending = s.delivery.pending)
    (hpendingIds : s'.delivery.pendingIds = s.delivery.pendingIds)
    (hmax : s'.delivery.maximumPending = s.delivery.maximumPending)
    (hadmitted : s'.admitted = s.admitted)
    (hlock : ∀ event, s'.lock.enqueued = some event → s.lock.enqueued = some event) :
    s'.Tracked where
  window := by
    rw [admittedKeys, hadmitted]
    exact ⟨horder.trans h.window.order_eq, by rw [hids, horder]; exact h.window.ids_eq,
      h.window.spaced⟩
  pendingIds_eq := by
    rw [hpendingIds, pendingKeys, hpending]
    exact h.pendingIds_eq
  nodup := by
    rw [pendingKeys, hpending]
    exact h.nodup
  fresh := by
    rw [pendingKeys, hpending, horder]
    exact h.fresh
  enqueued := by
    rw [pendingKeys, hpending, horder]
    exact fun event hevent => h.enqueued event (hlock event hevent)
  length_le := by
    rw [hpending, hmax]
    exact h.length_le

theorem finishRefill_eq (state : DeliveryState nostr) :
    ∃ senderOpen, state.finishRefill = { state with senderOpen } := by
  rw [DeliveryState.finishRefill]
  split
  · exact ⟨false, rfl⟩
  · exact ⟨state.senderOpen, rfl⟩

theorem afterRefill_eq (s : System nostr) (enqueued : Option (QueryEvent nostr)) :
    ∃ lock phase, s.afterRefill enqueued = { s with lock, phase } ∧ lock.enqueued = enqueued := by
  cases enqueued with
  | none => exact ⟨_, _, rfl, rfl⟩
  | some event => exact ⟨_, _, rfl, rfl⟩

theorem Tracked.moved (h : s.Tracked) (hmoved : Moved action s s') : s'.Tracked := by
  cases hmoved with
  | unchanged => exact h
  | @enqueued event hlock hadmits =>
    obtain ⟨-, hdelivered, hpending⟩ := hadmits
    refine ⟨h.window, h.pendingIds_eq, h.nodup, h.fresh, ?_, h.length_le⟩
    intro other hother
    cases hother
    rw [h.window.ids_eq, List.mem_toFinset] at hdelivered
    rw [h.pendingIds_eq, List.mem_toFinset] at hpending
    exact ⟨hdelivered, hpending⟩
  | closed hlock => exact h.congr rfl rfl rfl rfl rfl rfl fun _ he => he
  | refills hlock => exact h.congr rfl rfl rfl rfl rfl rfl nofun
  | @refilled enqueued event rest hlock hpending hreceiver hroom =>
    have hkeys : s.pendingKeys = eventKey event :: rest.map eventKey := by
      rw [pendingKeys, hpending, List.map_cons]
    obtain ⟨hnotMem, hrest⟩ := List.nodup_cons.mp (hkeys ▸ h.nodup)
    have hevent : eventKey event ∉ s.delivery.deliveredOrder :=
      h.fresh _ (hkeys ▸ List.mem_cons_self)
    -- the state that `mark_delivered` changes has the window of `s`
    have hwindow : DeliveryState.Window s.admittedKeys { s.delivery with
        pending := rest, pendingIds := s.delivery.pendingIds.erase (eventKey event) } :=
      ⟨h.window.order_eq, h.window.ids_eq, h.window.spaced⟩
    have hmarked := hwindow.markDelivered_eq hevent
    have hkept : ∀ id, id ∉ s.delivery.deliveredOrder → id ≠ eventKey event →
        id ∉ (DeliveryState.markDelivered (eventKey event) { s.delivery with
          pending := rest
          pendingIds := s.delivery.pendingIds.erase (eventKey event) }).deliveredOrder := by
      intro id hid hne hmem
      rcases hwindow.mem_of_mem_markDelivered hevent hmem with hmem | heq
      · exact hid hmem
      · exact hne heq
    have hpending' : (DeliveryState.markDelivered (eventKey event) { s.delivery with
          pending := rest
          pendingIds := s.delivery.pendingIds.erase (eventKey event) }).pending = rest := by
      rw [hmarked]
    refine ⟨?_, ?_, ?_, ?_, ?_, ?_⟩
    · have hadmitted := hwindow.markDelivered hevent
      rw [admittedKeys, admitted, List.map_append] at hadmitted
      rw [admittedKeys, admitted, List.map_append, List.map_append, ← List.append_assoc]
      exact hadmitted
    · rw [pendingKeys, hpending', hmarked]
      show s.delivery.pendingIds.erase (eventKey event) = _
      rw [h.pendingIds_eq, hkeys, List.toFinset_cons, Finset.erase_insert (by simpa using hnotMem)]
    · rw [pendingKeys, hpending']
      exact hrest
    · rw [pendingKeys, hpending']
      intro id hid
      exact hkept id (h.fresh id (hkeys ▸ List.mem_cons_of_mem _ hid))
        fun heq => hnotMem (heq ▸ hid)
    · intro other hother
      obtain ⟨hnew, hnotPending⟩ := h.enqueued other hother
      rw [hkeys, List.mem_cons, not_or] at hnotPending
      rw [pendingKeys, hpending']
      exact ⟨hkept _ hnew hnotPending.1, hnotPending.2⟩
    · rw [hpending', hmarked]
      have hlength := h.length_le
      rw [hpending, List.length_cons] at hlength
      exact Nat.le_of_succ_le hlength
  | @finished enqueued delivery hlock hdelivery =>
    obtain ⟨senderOpen, hfinish⟩ := finishRefill_eq delivery
    obtain ⟨lock, phase, hafter, henqueued⟩ :=
      { s with delivery := delivery.finishRefill }.afterRefill_eq enqueued
    have hlocks : ∀ event, lock.enqueued = some event → s.lock.enqueued = some event := by
      rw [henqueued, hlock]
      exact fun _ he => he
    rw [hafter, hfinish]
    rcases hdelivery with ⟨rfl, -⟩ | ⟨rfl, -⟩
    · exact h.congr rfl rfl rfl rfl rfl rfl hlocks
    · refine ⟨⟨h.window.order_eq, h.window.ids_eq, h.window.spaced⟩, rfl, List.nodup_nil, ?_, ?_,
        Nat.zero_le _⟩
      · exact fun id hid => absurd hid List.not_mem_nil
      · exact fun event hevent => ⟨(h.enqueued event (hlocks event hevent)).1, List.not_mem_nil⟩
  | @sent event hlock hreceiver hroom =>
    obtain ⟨hnew, hnotPending⟩ := h.enqueued event (by rw [hlock]; rfl)
    have hmarked := h.window.markDelivered_eq hnew
    have hadmitted := h.window.markDelivered hnew
    refine ⟨?_, ?_, ?_, ?_, nofun, ?_⟩
    · rw [admittedKeys, admitted, List.map_append] at hadmitted
      rw [admittedKeys, admitted, List.map_append, List.map_append, ← List.append_assoc]
      exact hadmitted
    · rw [pendingKeys, hmarked]
      exact h.pendingIds_eq
    · rw [pendingKeys, hmarked]
      exact h.nodup
    · intro id hid hmem
      rw [pendingKeys, hmarked] at hid
      rcases h.window.mem_of_mem_markDelivered hnew hmem with hmem | rfl
      · exact h.fresh id hid hmem
      · exact hnotPending hid
    · rw [hmarked]
      exact h.length_le
  | @deferred event hlock hsender hreceiver hfull hpending =>
    obtain ⟨hnew, hnotPending⟩ := h.enqueued event (by rw [hlock]; rfl)
    have hkeys : (s.delivery.pending ++ [event]).map eventKey = s.pendingKeys ++ [eventKey event] := by
      rw [List.map_append, pendingKeys, List.map_singleton]
    refine ⟨⟨h.window.order_eq, h.window.ids_eq, h.window.spaced⟩, ?_, ?_, ?_, nofun, ?_⟩
    · show insert (eventKey event) s.delivery.pendingIds = _
      rw [pendingKeys, hkeys, h.pendingIds_eq, List.toFinset_append, Finset.union_comm]
      rfl
    · rw [pendingKeys, hkeys, List.nodup_append]
      refine ⟨h.nodup, List.nodup_singleton _, ?_⟩
      rintro a ha b hb rfl
      exact hnotPending (List.mem_singleton.mp hb ▸ ha)
    · intro id hid
      rw [pendingKeys, hkeys, List.mem_append, List.mem_singleton] at hid
      rcases hid with hid | rfl
      · exact h.fresh id hid
      · exact hnew
    · show (s.delivery.pending ++ [event]).length ≤ s.delivery.maximumPending
      rw [List.length_append, List.length_singleton]
      exact Nat.lt_of_le_of_ne h.length_le hpending
  | @refused event delivery hlock hdelivery =>
    rcases hdelivery with ⟨rfl, -⟩ | ⟨rfl, -⟩ | ⟨rfl, -⟩
    · exact h.congr rfl rfl rfl rfl rfl rfl nofun
    · exact h.congr rfl rfl rfl rfl rfl rfl nofun
    · exact h.congr rfl rfl rfl rfl rfl rfl nofun
  | @took event rest haction hphase hreceiver hbuffer =>
    refine h.congr rfl rfl rfl rfl rfl ?_ fun _ he => he
    show s.taken ++ [event] ++ rest = s.admitted
    rw [admitted, hbuffer]
    exact (List.append_cons _ _ _).symm
  | tookNothing hphase => exact h.congr rfl rfl rfl rfl rfl rfl fun _ he => he
  | dropped => exact h.congr rfl rfl rfl rfl rfl rfl fun _ he => he

theorem maximumPending_moved (hmoved : Moved action s s') :
    s'.delivery.maximumPending = s.delivery.maximumPending := by
  cases hmoved with
  | @finished enqueued delivery hlock hdelivery =>
    obtain ⟨senderOpen, hfinish⟩ := finishRefill_eq delivery
    obtain ⟨lock, phase, hafter, -⟩ :=
      { s with delivery := delivery.finishRefill }.afterRefill_eq enqueued
    rw [hafter, hfinish]
    rcases hdelivery with ⟨rfl, -⟩ | ⟨rfl, -⟩ <;> rfl
  | refused hlock hdelivery => rcases hdelivery with ⟨rfl, -⟩ | ⟨rfl, -⟩ | ⟨rfl, -⟩ <;> rfl
  | _ => rfl

/-! ## The end of a subscription -/

/-- What is pending can still be delivered, and a subscription that ended is closed once it is
drained, at the latest by the `refill` after the take that drained it. -/
structure Draining (s : System nostr) : Prop where
  capacity_pos : 1 ≤ s.channel.capacity
  sender_open : s.delivery.pending ≠ [] → s.delivery.senderOpen = true
  ends : s.delivery.status ≠ .active → s.delivery.senderOpen = true →
    s.channel.receiverDropped = false →
    s.channel.buffer ≠ [] ∨ s.delivery.pending ≠ [] ∨ s.phase = .taken
  waits : s.phase = .taking → s.channel.buffer = [] → s.delivery.pending = []

theorem buffer_ne_nil_of_full (h : s.Draining)
    (hfull : s.channel.capacity ≤ s.channel.buffer.length) : s.channel.buffer ≠ [] := by
  intro hempty
  have := h.capacity_pos
  rw [hempty, List.length_nil] at hfull
  omega

theorem close_pending_nil {state : DeliveryState nostr} (h : state.pending = []) :
    state.close.senderOpen = false := if_pos h

/-- A drained subscription that ended is closed by the end of a refill. -/
theorem finishRefill_closes {state : DeliveryState nostr} (hstatus : state.finishRefill.status ≠ .active)
    (hsender : state.finishRefill.senderOpen = true) : state.finishRefill.pending ≠ [] := by
  rw [DeliveryState.finishRefill] at hstatus hsender ⊢
  split
  · next hends =>
    rw [if_pos hends] at hsender
    cases hsender
  · next hgoes =>
    rw [if_neg hgoes] at hstatus
    exact fun hempty => hgoes ⟨hstatus, hempty⟩

theorem finishRefill_sender {state : DeliveryState nostr}
    (h : state.pending ≠ [] → state.senderOpen = true) :
    state.finishRefill.pending ≠ [] → state.finishRefill.senderOpen = true := by
  rw [DeliveryState.finishRefill]
  split
  · next hends => exact fun hne => absurd hends.2 hne
  · exact h

theorem Draining.moved (h : s.Draining) (hmoved : Moved action s s') : s'.Draining := by
  cases hmoved with
  | unchanged => exact h
  | enqueued hlock hadmits => exact ⟨h.capacity_pos, h.sender_open, h.ends, h.waits⟩
  -- Closing drops the sender, but only when nothing is pending.
  | closed hlock =>
    refine ⟨h.capacity_pos, ?_, ?_, h.waits⟩
    · intro hne
      exact (if_neg hne).trans (h.sender_open hne)
    · intro _ hsender _
      refine .inr (.inl fun hempty => ?_)
      have hclosed : s.delivery.close.senderOpen = false := close_pending_nil hempty
      exact Bool.noConfusion (hclosed.symm.trans hsender)
  | refills hlock => exact ⟨h.capacity_pos, h.sender_open, h.ends, h.waits⟩
  -- The oldest pending event moves into the channel, which is then not empty.
  | @refilled enqueued event rest hlock hpending hreceiver hroom =>
    have hopen := h.sender_open (by rw [hpending]; exact List.cons_ne_nil _ _)
    have hbuffer : s.channel.buffer ++ [event] ≠ [] := by simp
    exact ⟨h.capacity_pos, fun _ => hopen, fun _ _ _ => .inl hbuffer,
      fun _ hempty => absurd hempty hbuffer⟩
  | @finished enqueued delivery hlock hdelivery =>
    obtain ⟨senderOpen, hfinish⟩ := finishRefill_eq delivery
    have hpending : delivery.finishRefill.pending = delivery.pending := by rw [hfinish]
    have hsender : delivery.pending ≠ [] → delivery.senderOpen = true := by
      rcases hdelivery with ⟨rfl, -⟩ | ⟨rfl, -⟩
      · exact h.sender_open
      · exact fun hne => absurd rfl hne
    -- A refill ends because nothing is pending any more or the channel is full.
    have hdrained : delivery.pending = [] ∨ s.channel.buffer ≠ [] := by
      rcases hdelivery with ⟨rfl, hempty | hclosed | ⟨-, hfull⟩⟩ | ⟨rfl, -⟩
      · exact .inl hempty
      · by_contra hboth
        rw [not_or] at hboth
        rw [h.sender_open hboth.1] at hclosed
        cases hclosed
      · exact .inr (buffer_ne_nil_of_full h hfull)
      · exact .inl rfl
    obtain ⟨lock, phase, hafter, -⟩ :=
      { s with delivery := delivery.finishRefill }.afterRefill_eq enqueued
    rw [hafter]
    refine ⟨h.capacity_pos, finishRefill_sender hsender, ?_, ?_⟩
    · exact fun hstatus hopen _ => .inr (.inl (finishRefill_closes hstatus hopen))
    · intro _ hempty
      rw [hpending]
      exact hdrained.resolve_right (not_not.mpr hempty)
  | @sent event hlock hreceiver hroom =>
    have hbuffer : s.channel.buffer ++ [event] ≠ [] := by simp
    exact ⟨h.capacity_pos, h.sender_open, fun _ _ _ => .inl hbuffer,
      fun _ hempty => absurd hempty hbuffer⟩
  | @deferred event hlock hsender hreceiver hfull hpending =>
    have hbuffer := buffer_ne_nil_of_full h hfull
    exact ⟨h.capacity_pos, fun _ => hsender, fun _ _ _ => .inl hbuffer,
      fun _ hempty => absurd hempty hbuffer⟩
  | @refused event delivery hlock hdelivery =>
    rcases hdelivery with ⟨rfl, hclosed⟩ | ⟨rfl, hfull⟩ | ⟨rfl, hdropped⟩
    · exact ⟨h.capacity_pos, h.sender_open, h.ends, h.waits⟩
    · have hbuffer := buffer_ne_nil_of_full h hfull
      exact ⟨h.capacity_pos, h.sender_open, fun _ _ _ => .inl hbuffer, h.waits⟩
    · refine ⟨h.capacity_pos, ?_, ?_, h.waits⟩
      · exact fun hne => (if_neg hne).trans (h.sender_open hne)
      · intro _ _ hreceiver
        rw [hdropped] at hreceiver
        cases hreceiver
  | @took event rest haction hphase hreceiver hbuffer =>
    exact ⟨h.capacity_pos, h.sender_open, fun _ _ _ => .inr (.inr rfl), nofun⟩
  | tookNothing hphase =>
    exact ⟨h.capacity_pos, h.sender_open, fun _ _ _ => .inr (.inr rfl), nofun⟩
  | dropped => exact ⟨h.capacity_pos, h.sender_open, nofun, h.waits⟩

/-! ## The order of delivery -/

/-- The events that were accepted are those that entered the channel and, after them, the pending
ones. An `enqueue` that is about to send while events are pending finds the channel full. -/
structure Ordered (s : System nostr) : Prop where
  taken_first : s.taken <+: s.accepted
  accepted_eq : s.channel.receiverDropped = false → s.accepted = s.admitted ++ s.delivery.pending
  full : s.Overtaking → s.channel.receiverDropped = false →
    s.channel.capacity ≤ s.channel.buffer.length

theorem not_overtaking_of_free (h : s.lock = .free) : ¬ s.Overtaking := by
  rw [Overtaking, h]
  exact not_false

theorem Ordered.moved (h : s.Ordered) (hdraining : s.Draining) (hmoved : Moved action s s')
    (htake : action = .take → ¬ s.Overtaking) : s'.Ordered := by
  cases hmoved with
  | unchanged => exact h
  | enqueued hlock hadmits => exact ⟨h.taken_first, h.accepted_eq, nofun⟩
  | closed hlock =>
    exact ⟨h.taken_first, h.accepted_eq, fun hover => absurd hover (not_overtaking_of_free hlock)⟩
  | refills hlock => exact ⟨h.taken_first, h.accepted_eq, nofun⟩
  | @refilled enqueued event rest hlock hpending hreceiver hroom =>
    refine ⟨h.taken_first, ?_, ?_⟩
    · intro hopen
      have haccepted := h.accepted_eq hopen
      rw [hpending] at haccepted
      show s.accepted = s.taken ++ (s.channel.buffer ++ [event]) ++ rest
      rw [haccepted, admitted]
      simp
    · intro hover
      rw [Overtaking] at hover
      simp only [hlock] at hover
  | @finished enqueued delivery hlock hdelivery =>
    obtain ⟨senderOpen, hfinish⟩ := finishRefill_eq delivery
    have hpending : delivery.finishRefill.pending = delivery.pending := by rw [hfinish]
    have hpending' : s.channel.receiverDropped = false → delivery.pending = s.delivery.pending := by
      intro hopen
      rcases hdelivery with ⟨rfl, -⟩ | ⟨-, hdropped⟩
      · rfl
      · rw [hdropped] at hopen
        cases hopen
    have hfull : delivery.pending ≠ [] → s.channel.capacity ≤ s.channel.buffer.length := by
      intro hne
      rcases hdelivery with ⟨rfl, hempty | hclosed | ⟨-, hfull⟩⟩ | ⟨rfl, -⟩
      · exact absurd hempty hne
      · rw [hdraining.sender_open hne] at hclosed
        cases hclosed
      · exact hfull
      · exact absurd rfl hne
    cases enqueued with
    | none =>
      refine ⟨h.taken_first, ?_, fun hover => absurd hover (not_overtaking_of_free rfl)⟩
      intro hopen
      show s.accepted = s.admitted ++ delivery.finishRefill.pending
      rw [hpending, hpending' hopen]
      exact h.accepted_eq hopen
    | some event =>
      refine ⟨h.taken_first, ?_, ?_⟩
      · intro hopen
        show s.accepted = s.admitted ++ delivery.finishRefill.pending
        rw [hpending, hpending' hopen]
        exact h.accepted_eq hopen
      · intro hover _
        have hne : delivery.finishRefill.pending ≠ [] := hover
        rw [hpending] at hne
        exact hfull hne
  | @sent event hlock hreceiver hroom =>
    -- the channel has room, so nothing is pending
    have hempty : s.delivery.pending = [] := by
      by_contra hne
      have hover : s.Overtaking := by
        rw [Overtaking, hlock]
        exact hne
      exact Nat.not_le_of_lt hroom (h.full hover hreceiver)
    refine ⟨h.taken_first.trans (List.prefix_append _ _), ?_,
      fun hover => absurd hover (not_overtaking_of_free rfl)⟩
    intro hopen
    show s.accepted ++ [event] = s.taken ++ (s.channel.buffer ++ [event]) ++ s.delivery.pending
    rw [h.accepted_eq hopen, hempty, admitted]
    simp
  | @deferred event hlock hsender hreceiver hfull hpending =>
    refine ⟨h.taken_first.trans (List.prefix_append _ _), ?_,
      fun hover => absurd hover (not_overtaking_of_free rfl)⟩
    intro hopen
    show s.accepted ++ [event] = s.admitted ++ (s.delivery.pending ++ [event])
    rw [h.accepted_eq hopen, List.append_assoc]
  | @refused event delivery hlock hdelivery =>
    have hpending : delivery.pending = s.delivery.pending := by
      rcases hdelivery with ⟨rfl, -⟩ | ⟨rfl, -⟩ | ⟨rfl, -⟩ <;> rfl
    refine ⟨h.taken_first, ?_, fun hover => absurd hover (not_overtaking_of_free rfl)⟩
    intro hopen
    show s.accepted = s.admitted ++ delivery.pending
    rw [hpending]
    exact h.accepted_eq hopen
  | @took event rest haction hphase hreceiver hbuffer =>
    have haccepted := h.accepted_eq hreceiver
    rw [admitted, hbuffer] at haccepted
    refine ⟨?_, ?_, fun hover => absurd hover (htake haction)⟩
    · show s.taken ++ [event] <+: s.accepted
      rw [haccepted]
      exact ⟨rest ++ s.delivery.pending, by simp⟩
    · intro _
      show s.accepted = s.taken ++ [event] ++ rest ++ s.delivery.pending
      rw [haccepted]
      simp
  | tookNothing hphase => exact ⟨h.taken_first, h.accepted_eq, h.full⟩
  | dropped => exact ⟨h.taken_first, nofun, nofun⟩

/-! ## Runs -/

theorem tracked_new (capacity maximumPending : ℕ) :
    (new capacity maximumPending : System nostr).Tracked where
  window := ⟨by simp [new, DeliveryState.new, admittedKeys, admitted], rfl, List.spaced_nil⟩
  pendingIds_eq := rfl
  nodup := List.nodup_nil
  fresh := nofun
  enqueued := nofun
  length_le := Nat.zero_le _

theorem tracked_after (capacity maximumPending : ℕ) (actions : List (Action nostr)) :
    (Mealy.after step (new capacity maximumPending) actions).Tracked :=
  Mealy.invariant (fun action s h => h.moved (step_moved action s))
    (tracked_new capacity maximumPending) actions

theorem draining_new {capacity : ℕ} (hcapacity : 1 ≤ capacity) (maximumPending : ℕ) :
    (new capacity maximumPending : System nostr).Draining :=
  ⟨hcapacity, fun h => absurd rfl h, fun h => absurd rfl h, nofun⟩

theorem draining_after {capacity : ℕ} (hcapacity : 1 ≤ capacity) (maximumPending : ℕ)
    (actions : List (Action nostr)) :
    (Mealy.after step (new capacity maximumPending) actions).Draining :=
  Mealy.invariant (fun action s h => h.moved (step_moved action s))
    (draining_new hcapacity maximumPending) actions

theorem ordered_after (hordered : s.Ordered) (hdraining : s.Draining)
    {actions : List (Action nostr)} (hrun : Undisturbed s actions) :
    (Mealy.after step s actions).Ordered := by
  induction actions generalizing s with
  | nil => exact hordered
  | cons action rest ih =>
    have hmoved := step_moved action s
    refine ih (hordered.moved hdraining hmoved ?_) (hdraining.moved hmoved) hrun.2
    rintro rfl
    exact hrun.1

/-- For every interleaving: the consumer takes the accepted events in the order of their
acceptance, as long as it takes nothing while an `enqueue` stands between its `refill` and its
`try_send` with events pending. Whatever the interleaving, an id is taken twice only if many other
ids entered the channel in between, the overflow queue is bounded and as its set of ids says, and
a subscription that lagged or was closed and is drained has a closed channel, unless the receiver
was dropped, or the consumer is still to `refill` after its take. -/
theorem localDelivery_fifo {capacity : ℕ} (hcapacity : 1 ≤ capacity) (maximumPending : ℕ)
    (actions : List (Action nostr)) :
    let s := Mealy.after step (new capacity maximumPending) actions
    (Undisturbed (new capacity maximumPending) actions → s.taken <+: s.accepted) ∧
    (∀ before event between again after,
      s.taken = before ++ event :: between ++ again :: after → eventKey again = eventKey event →
        maxSeenEventIds ≤ ((between.map eventKey).toFinset.erase (eventKey event)).card) ∧
    s.delivery.pendingIds = (s.delivery.pending.map eventKey).toFinset ∧
    s.delivery.pending.length ≤ maximumPending ∧
    (s.delivery.status ≠ .active → s.channel.buffer = [] → s.delivery.pending = [] →
      s.phase ≠ .taken → s.channel.receiverDropped = false → s.delivery.senderOpen = false) ∧
    (s.phase = .taking → s.channel.buffer = [] → s.delivery.pending = []) := by
  intro s
  have htracked : s.Tracked := tracked_after capacity maximumPending actions
  have hdraining : s.Draining := draining_after hcapacity maximumPending actions
  refine ⟨?_, ?_, htracked.pendingIds_eq, ?_, ?_, hdraining.waits⟩
  · intro hrun
    have hnew : (new capacity maximumPending : System nostr).Ordered :=
      ⟨List.prefix_refl _, fun _ => rfl, nofun⟩
    exact (ordered_after hnew (draining_new hcapacity maximumPending) hrun).taken_first
  · intro before event between again after htaken hkey
    have hspaced := htracked.window.spaced
    rw [admittedKeys, admitted, List.map_append, htaken, List.map_append, List.map_append,
      List.map_cons, List.map_cons, hkey] at hspaced
    exact hspaced.of_append.card_between
  · have hmax : s.delivery.maximumPending = maximumPending :=
      Mealy.invariant (I := fun t : System nostr => t.delivery.maximumPending = maximumPending)
        (fun action t ht => (maximumPending_moved (step_moved action t)).trans ht) rfl actions
    exact hmax ▸ htracked.length_le
  · intro hstatus hbuffer hpending hphase hreceiver
    by_contra hopen
    rcases hdraining.ends hstatus (by simpa using hopen) hreceiver with h | h | h
    · exact h hbuffer
    · exact h hpending
    · exact hphase h

/-! ## A new event overtakes a pending one

The channel holds one event. The second event waits in the overflow queue. While the third is
enqueued, the consumer takes the first: the refill was over by then, and the third event goes into
the channel in front of the second. -/

/-- A third signed note of the same author. -/
def noteC : Event where
  id :=
    ⟨[147, 171, 214, 153, 1, 222, 150, 185, 198, 220, 162, 217, 188, 195, 27, 190, 26, 187, 202, 15,
      155, 68, 47, 99, 105, 183, 52, 135, 250, 41, 177, 27], rfl⟩
  pubkey := noteAuthor
  createdAt := 3
  kind := 1
  tags := []
  content := "c"
  sig :=
    ⟨[46, 29, 121, 250, 42, 217, 68, 37, 244, 235, 167, 13, 135, 177, 236, 198, 240, 197, 45, 179,
      21, 176, 61, 126, 41, 177, 78, 150, 8, 199, 108, 219, 164, 45, 108, 166, 95, 198, 255, 222,
      243, 215, 229, 137, 21, 222, 195, 177, 189, 83, 220, 130, 83, 179, 53, 120, 1, 142, 220, 135,
      75, 112, 38, 131], rfl⟩

/-- The crate as it behaves on the three notes. -/
def threeNotes : NostrCrate where
  verify event :=
    if event = noteA ∨ event = noteB ∨ event = noteC then .ok () else .error "Invalid signature"
  toJson event := .ok event.plainJson
  identifier := firstIdentifier

/-- A note as a peer delivers it. -/
def received (event : Event) (h : threeNotes.verify event = .ok ()) : QueryEvent threeNotes :=
  ⟨⟨event, h⟩, EventSource.ofFipsEndpoint "peer", EventSourceKind.fipsEndpoint.defaultPriority⟩

/-- The notes as a peer delivers them. -/
def receivedA : QueryEvent threeNotes := received noteA (by decide +kernel)

def receivedB : QueryEvent threeNotes := received noteB (by decide +kernel)

def receivedC : QueryEvent threeNotes := received noteC (by decide +kernel)

/-- The second note is pending when the third is enqueued, and the consumer takes the first before
the third is sent. -/
def overtaken : List (Action threeNotes) :=
  [.refill, .proceed,
    .enqueue receivedA, .proceed, .proceed,
    .enqueue receivedB, .proceed, .proceed,
    .enqueue receivedC, .proceed,
    .take, .proceed,
    .refill, .proceed, .refill, .proceed, .take]

theorem not_fifo_of_overtaken :
    ¬ ∀ capacity maximumPending, 1 ≤ capacity → ∀ actions : List (Action threeNotes),
      (Mealy.after step (new capacity maximumPending) actions).taken <+:
        (Mealy.after step (new capacity maximumPending) actions).accepted := by
  intro h
  have htaken := (h 1 1 le_rfl overtaken).map eventKey
  have hnot : ¬ (Mealy.after step (new 1 1) overtaken).taken.map eventKey <+:
      (Mealy.after step (new 1 1) overtaken).accepted.map eventKey := by decide +kernel
  exact hnot htaken

/-- The same notes, with the consumer's takes at other moments. -/
def undisturbed : List (Action threeNotes) :=
  [.refill, .proceed,
    .enqueue receivedA, .proceed, .proceed,
    .enqueue receivedB, .proceed, .proceed,
    .take, .refill, .proceed, .proceed,
    .enqueue receivedC, .proceed, .proceed,
    .refill, .proceed, .take, .refill, .proceed, .proceed]

theorem localDelivery_fifo_three :
    let s := Mealy.after step (new 1 1) undisturbed
    s.taken.map eventKey = [eventKey receivedA, eventKey receivedB] ∧ s.taken <+: s.accepted := by
  intro s
  refine ⟨by decide +kernel, ?_⟩
  exact (localDelivery_fifo le_rfl 1 undisturbed).1 (by decide +kernel)

end System

end NostrPubsub.Fips
