import NostrPubsub.Mesh.Closing
import NostrPubsub.Mesh.Lockstep

/-!
# Waiting peers

A peer that asks for an event with an open route waits for it: it joins the entry of the event in
`pending_downstream`, and the frame that answers the route is sent to everyone there. The entry
has one deadline, set by the first peer that waits. An alternate provider moves the deadlines of
the route, of the want and of the seen id, but not that of the entry, so a prune may drop peers
that still wait on a live route.

The module says what a call does to the entry of an event whose route stays open
(`Op.apply_keepsWaiting`), follows a peer from its want to the answer (`Awaited.waitsUntil`), and
gives the run in which a peer is forgotten.
-/

namespace NostrPubsub

namespace InvWantMesh

/-- The route of `eventId` is there and unanswered. -/
abbrev HasOpenRoute : InvWantMesh → String → Prop :=
  HasRoute fun route => route.fulfilled = false

/-- `peerId` waits for the event, in an entry that is over at `deadline`. -/
def WaitsUntil (m : InvWantMesh) (peerId eventId : String) (deadline : ℕ) : Prop :=
  ∃ pending, m.pendingDownstream.lookup eventId = some pending ∧ peerId ∈ pending.peers ∧
    pending.expiresAtMs = deadline

/-- A call at `nowMs` drops the peers that wait for the event: it prunes, and their entry is
over. -/
def DropsWaiting (m : InvWantMesh) (eventId : String) (nowMs : ℕ) : Prop :=
  m.nextPruneAtMs ≤ (nowMs : WithTop ℕ) ∧
    ∃ pending, m.pendingDownstream.lookup eventId = some pending ∧ pending.expiresAtMs ≤ nowMs

/-- Whoever waits for the event in `m` does so in `m'`, with the same deadline. -/
def KeepsWaiting (eventId : String) (m m' : InvWantMesh) : Prop :=
  ∀ peerId deadline, m.WaitsUntil peerId eventId deadline → m'.WaitsUntil peerId eventId deadline

/-- The event loses no waiting peer, or its route is answered or gone. -/
def KeepsWaitingOrCloses (eventId : String) (m m' : InvWantMesh) : Prop :=
  m'.HasOpenRoute eventId → KeepsWaiting eventId m m'

section Keeps

variable {nostr : NostrCrate} {eventId : String} {m m' m'' : InvWantMesh}

theorem KeepsWaiting.refl (m : InvWantMesh) : KeepsWaiting eventId m m := fun _ _ h => h

theorem KeepsWaiting.of_eq (h : m'.pendingDownstream = m.pendingDownstream) :
    KeepsWaiting eventId m m' := by
  rintro peerId deadline ⟨pending, hlookup, hmem⟩
  exact ⟨pending, h ▸ hlookup, hmem⟩

theorem KeepsWaiting.trans (h : KeepsWaiting eventId m m') (h' : KeepsWaiting eventId m' m'') :
    KeepsWaiting eventId m m'' :=
  fun peerId deadline hwaits => h' peerId deadline (h peerId deadline hwaits)

theorem KeepsWaitingOrCloses.of_eq (h : m'.pendingDownstream = m.pendingDownstream) :
    KeepsWaitingOrCloses eventId m m' := fun _ => .of_eq h

/-- Changes before that keep the entry, and changes after that keep the routes as well. -/
theorem KeepsWaitingOrCloses.trans_left (h : KeepsWaiting eventId m m')
    (h' : KeepsWaitingOrCloses eventId m' m'') : KeepsWaitingOrCloses eventId m m'' :=
  fun hopen => h.trans (h' hopen)

theorem KeepsWaitingOrCloses.recordRejection {sourcePeer : String}
    {result : Except PubsubError (List InvWantAction) × InvWantMesh}
    (h : KeepsWaitingOrCloses eventId m result.2) :
    KeepsWaitingOrCloses eventId m (InvWantMesh.recordRejection sourcePeer result).2 := by
  obtain ⟨_ | _, m'⟩ := result
  · exact fun hopen => (h hopen).trans (.of_eq rfl)
  · exact h

/-- Dropping the waiting peers of another event. -/
theorem KeepsWaiting.removePendingEvent {other : String} (h : eventId ≠ other) :
    KeepsWaiting eventId m (m.removePendingEvent other) := by
  rintro peerId deadline ⟨pending, hlookup, hmem⟩
  refine ⟨pending, ?_, hmem⟩
  exact (Finmap.lookup_erase_ne h).trans hlookup

/-- Closing a route and dropping its waiting peers. -/
theorem KeepsWaitingOrCloses.closeRoute_removePendingEvent (m : InvWantMesh) (other : String) :
    KeepsWaitingOrCloses eventId m ((m.closeRoute other).removePendingEvent other) := by
  rintro ⟨route, hroute, hopen⟩
  by_cases hother : eventId = other
  · -- The route of the event itself is answered now.
    subst hother
    unfold removePendingEvent closeRoute at hroute
    cases hbefore : m.upstreamRoutes.lookup eventId with
    | none => simp [hbefore] at hroute
    | some found =>
      simp only [hbefore, Finmap.lookup_insert, Option.some.injEq] at hroute
      subst hroute
      cases hopen
  · exact (KeepsWaiting.of_eq rfl).trans (.removePendingEvent hother)

theorem KeepsWaitingOrCloses.settleRoute (m : InvWantMesh) (other : String) (nowMs : ℕ) :
    KeepsWaitingOrCloses eventId m (m.settleRoute other nowMs) := by
  obtain ⟨_, _, _, heq⟩ := (m.closeRoute other).rememberDelivered_frame other nowMs
  intro hopen
  have hclosed := @closeRoute_removePendingEvent eventId m other
  rw [InvWantMesh.settleRoute, heq] at hopen ⊢
  exact hclosed hopen

/-- Remembering an inventory drops a waiting peer only with its route. -/
theorem rememberInventory_keepsWaiting (m : InvWantMesh) (other : String) (nowMs : ℕ) :
    KeepsWaiting eventId m (m.rememberInventory other nowMs).2 ∨
      eventId ∉ (m.rememberInventory other nowMs).2.upstreamRoutes := by
  have hevict : KeepsWaiting eventId m (evictOldestInventories m.seenOrder m) ∨
      eventId ∉ (evictOldestInventories m.seenOrder m).upstreamRoutes := by
    refine @evictOldestInventories_preserves
      (fun m' => KeepsWaiting eventId m m' ∨ eventId ∉ m'.upstreamRoutes) ?_ m (.inl (.refl m))
    intro m' oldest rest _ h
    by_cases holdest : eventId = oldest
    · subst holdest
      exact Or.inr Finmap.notMem_erase_self
    · rcases h with hkept | hgone
      · refine Or.inl (hkept.trans ?_)
        rintro peerId deadline ⟨pending, hlookup, hmem⟩
        exact ⟨pending, (Finmap.lookup_erase_ne holdest).trans hlookup, hmem⟩
      · exact Or.inr fun hmem => hgone (Finmap.mem_erase.mp hmem).2
  cases hseen : m.isSeen other nowMs with
  | true =>
    rw [rememberInventory_of_seen hseen]
    exact Or.inl (.refl m)
  | false =>
    rcases rememberInventory_snd hseen with ⟨_, heq⟩ | ⟨_, heq⟩ <;> rw [heq]
    · exact Or.inl (.of_eq rfl)
    · exact hevict.imp (fun hkept => hkept.trans (.of_eq rfl)) id

theorem KeepsWaitingOrCloses.rememberInventory (m : InvWantMesh) (other : String) (nowMs : ℕ) :
    KeepsWaitingOrCloses eventId m (m.rememberInventory other nowMs).2 := by
  rintro ⟨route, hroute, _⟩
  rcases m.rememberInventory_keepsWaiting other nowMs with hkept | hgone
  · exact hkept
  · exact absurd (Finmap.mem_of_lookup_eq_some hroute) hgone

theorem KeepsWaiting.addPendingPeer (m : InvWantMesh) (sourcePeer other : String) (nowMs : ℕ) :
    KeepsWaiting eventId m (m.addPendingPeer sourcePeer other nowMs) := by
  rintro peerId deadline ⟨pending, hlookup, hmem, hdeadline⟩
  by_cases hother : eventId = other
  · subst hother
    unfold InvWantMesh.addPendingPeer
    simp only [hlookup, Option.getD_some]
    split
    · exact ⟨_, Finmap.lookup_insert _, Finset.mem_insert_of_mem hmem, hdeadline⟩
    · exact ⟨_, Finmap.lookup_insert _, hmem, hdeadline⟩
  · refine ⟨pending, ?_, hmem, hdeadline⟩
    unfold InvWantMesh.addPendingPeer
    simp only
    split
    · exact (Finmap.lookup_insert_of_ne _ hother).trans hlookup
    · exact (Finmap.lookup_insert_of_ne _ hother).trans hlookup

theorem KeepsWaiting.receiveWant (m : InvWantMesh) (sourcePeer other : String) (nowMs : ℕ) :
    KeepsWaiting eventId m (m.receiveWant sourcePeer other nowMs).2 := by
  unfold InvWantMesh.receiveWant
  split
  · exact .refl m
  split
  · exact .refl m
  split
  · exact .refl m
  split
  · exact .refl m
  simp only
  split
  · exact .addPendingPeer m sourcePeer other nowMs
  · exact (KeepsWaiting.addPendingPeer m sourcePeer other nowMs).trans (.of_eq rfl)

theorem KeepsWaitingOrCloses.receiveFrame (m : InvWantMesh) (sourcePeer other : String)
    (event : Event) (peers : List MeshPeer) (nowMs : ℕ) (verifySignature : Bool) :
    KeepsWaitingOrCloses eventId m
      (m.receiveFrame nostr sourcePeer other event peers nowMs verifySignature).2 := by
  unfold InvWantMesh.receiveFrame
  split
  · exact .of_eq rfl
  next route payloadBytes _ =>
  split
  · exact .of_eq rfl
  have hsettled := @KeepsWaitingOrCloses.settleRoute eventId
    ((m.recordPeerBehavior sourcePeer validFrameReward .validFrame).storeEvent event payloadBytes
      nowMs) other nowMs
  exact .trans_left (.of_eq rfl) hsettled

theorem KeepsWaiting.extendRoute (m : InvWantMesh) (sourcePeer other : String)
    (eventKind payloadBytes hopLimit nowMs : ℕ) :
    KeepsWaiting eventId m
      (m.extendRoute sourcePeer other eventKind payloadBytes hopLimit nowMs).2 := by
  rcases m.extendRoute_cases sourcePeer other eventKind payloadBytes hopLimit nowMs with
    ⟨heq, _⟩ | ⟨route, _, _, ⟨_, heq⟩ | ⟨_, heq⟩ | ⟨_, _, heq⟩⟩ <;> rw [heq]
  · exact .refl m
  · exact .of_eq rfl
  · exact .of_eq rfl
  · exact .of_eq rfl

/-- An inventory, on a mesh where the event is seen as long as its route is there. -/
theorem KeepsWaitingOrCloses.receiveInventory {nowMs : ℕ}
    (hseen : m.HasOpenRoute eventId → m.isSeen eventId nowMs = true)
    (hopen : m.HasOpenRoute eventId) (sourcePeer other : String)
    (eventKind payloadBytes hopLimit : ℕ) :
    KeepsWaitingOrCloses eventId m
      (m.receiveInventory sourcePeer other eventKind payloadBytes hopLimit nowMs).2 := by
  rcases m.receiveInventory_cases sourcePeer other eventKind payloadBytes hopLimit nowMs with
    ⟨heq, _⟩ | ⟨_, heq⟩ | ⟨hunseen, heq⟩ <;> rw [heq]
  · exact .of_eq rfl
  · exact fun _ => .extendRoute m sourcePeer other eventKind payloadBytes hopLimit nowMs
  · -- A new route is opened, but not for the event: it is seen.
    have hother : eventId ≠ other := by
      rintro rfl
      rw [hseen hopen] at hunseen
      cases hunseen
    rcases m.rememberInventory_keepsWaiting other nowMs with hkept | hgone
    · exact fun _ => hkept.trans (.of_eq rfl)
    · rintro ⟨route, hroute, _⟩
      have hbefore : (m.rememberInventory other nowMs).2.upstreamRoutes.lookup eventId
          = some route := by
        simp only [openRoute] at hroute
        split at hroute
        · exact hroute
        · exact (Finmap.lookup_insert_of_ne _ hother).symm.trans hroute
      exact absurd (Finmap.mem_of_lookup_eq_some hbefore) hgone

/-- A prune that keeps the route drops its waiting peers only when their own entry is over. -/
theorem WaitsUntil.prune {peerId : String} {deadline nowMs : ℕ} {order : RouteOrder}
    (h : m.WaitsUntil peerId eventId deadline) (hroute : (m.prune order nowMs).HasOpenRoute eventId)
    (hkept : ¬m.DropsWaiting eventId nowMs) :
    (m.prune order nowMs).WaitsUntil peerId eventId deadline := by
  obtain ⟨pending, hlookup, hmem, hdeadline⟩ := h
  unfold InvWantMesh.prune at hroute ⊢
  split
  · exact ⟨pending, hlookup, hmem, hdeadline⟩
  · next hdue =>
    rw [if_neg hdue] at hroute
    obtain ⟨route, hroute, _⟩ := hroute
    have hrecorded : (m.recordUnserved (m.expiredProviders order nowMs)).pendingDownstream
        = m.pendingDownstream :=
      @recordUnserved_preserves (fun m' => m'.pendingDownstream = m.pendingDownstream)
        (fun _ _ _ _ h => h) m rfl _
    refine ⟨pending, Finmap.lookup_filter_eq_some.mpr ⟨hrecorded ▸ hlookup, ?_⟩, hmem, hdeadline⟩
    refine decide_eq_true ⟨?_, Finmap.mem_of_lookup_eq_some hroute⟩
    by_contra hover
    exact hkept ⟨not_lt.mp hdue, pending, hlookup, Nat.le_of_not_lt hover⟩

/-- An accepted frame is sent to every peer that waits for its event. -/
theorem WaitsUntil.acceptFrame {peerId : String} {deadline : ℕ}
    (h : m.WaitsUntil peerId eventId deadline) (route : UpstreamRoute) (sourcePeer : String)
    (event : Event) (payloadBytes : ℕ) (peers : List MeshPeer) (nowMs : ℕ) :
    .send peerId (.frame eventId event) ∈
      (m.acceptFrame route sourcePeer eventId event payloadBytes peers nowMs).1 := by
  obtain ⟨pending, hlookup, hmem, _⟩ := h
  obtain ⟨_, _, _, heq⟩ := (((m.recordPeerBehavior sourcePeer validFrameReward
    .validFrame).storeEvent event payloadBytes nowMs).closeRoute eventId).rememberDelivered_frame
      eventId nowMs
  have hpending : (((m.recordPeerBehavior sourcePeer validFrameReward .validFrame).storeEvent event
      payloadBytes nowMs).closeRoute eventId |>.rememberDelivered eventId nowMs).2.pendingDownstream
        = m.pendingDownstream := by
    rw [heq]
    rfl
  simp only [InvWantMesh.acceptFrame, hpending, hlookup, Option.map_some, Option.getD_some]
  refine List.mem_append_left _ (List.mem_append_right _ (List.mem_map.mpr ⟨peerId, ?_, rfl⟩))
  exact Finset.mem_ascending.mpr hmem

end Keeps

end InvWantMesh

namespace Op

open InvWantMesh

variable {nostr : NostrCrate} {m : InvWantMesh} {eventId : String}

/-- A call that leaves the route of an event open keeps the peers that wait for it, once its
prune is over. -/
theorem apply_keepsWaiting {c : ℕ} (htimely : Timely c m) (order : RouteOrder) (op : Op nostr)
    (hclock : c ≤ op.clock.getD c)
    (hbefore : (op.pruned (InvWantMesh.prune order) m).HasOpenRoute eventId) :
    KeepsWaitingOrCloses eventId (op.pruned (InvWantMesh.prune order) m)
      (op.apply (InvWantMesh.prune order) m).2 := by
  cases op with
  | publish event peers t =>
    simp only [apply, InvWantMesh.publish, InvWantMesh.withValidated]
    split
    · exact .of_eq rfl
    · rw [publishValidated_snd]
      exact .trans_left (.of_eq rfl) (.rememberInventory _ _ t)
  | publishVerified verified peers t =>
    simp only [apply, InvWantMesh.publishVerified, InvWantMesh.withValidated]
    split
    · exact .of_eq rfl
    · rw [publishValidated_snd]
      exact .trans_left (.of_eq rfl) (.rememberInventory _ _ t)
  | replayToPeer event peerId t =>
    simp only [apply, InvWantMesh.replayToPeer, InvWantMesh.withValidated]
    split <;> exact .of_eq rfl
  | replayVerifiedToPeer verified peerId t =>
    simp only [apply, InvWantMesh.replayVerifiedToPeer, InvWantMesh.withValidated]
    split <;> exact .of_eq rfl
  | replayCachedToPeer peerId t => exact .of_eq rfl
  | seedVerified verified t =>
    simp only [apply, InvWantMesh.seedVerified]
    split <;> exact .of_eq rfl
  | receive sourcePeer message peers t =>
    refine .recordRejection ?_
    cases message with
    | inventory other eventKind payloadBytes hopLimit =>
      refine .receiveInventory ?_ hbefore sourcePeer other eventKind payloadBytes hopLimit
      -- The id of an open route is still seen after the prune: an inventory for it does not open
      -- the route afresh, which would drop those that wait.
      rintro ⟨route, hroute, _⟩
      change c ≤ t at hclock
      have hseen := (htimely.prune order hclock).lockstep.seen_eq _ _ hroute
      have hlater := htimely.lt_of_seen_prune order hseen
      change (m.prune order t).isSeen eventId t = true
      simp [isSeen, hseen, hlater]
    | want other => exact fun _ => .receiveWant _ sourcePeer other t
    | frame other event => exact .receiveFrame _ sourcePeer other event peers t true
  | receiveVerifiedFrame sourcePeer other verified peers t =>
    exact .recordRejection (.receiveFrame _ sourcePeer other verified.event peers t false)
  | dismissFrame peerId other =>
    simp only [apply, InvWantMesh.dismissFrame]
    split
    · exact .closeRoute_removePendingEvent m other
    · exact .of_eq rfl
  | recordInvalidMessage peerId => exact .of_eq rfl
  | recordTransportDisruption peerId other =>
    simp only [apply, InvWantMesh.recordTransportDisruption]
    split
    · exact .of_eq rfl
    · split <;> exact .of_eq rfl
  | maintain t => exact .of_eq rfl

/-- The call hands the mesh a frame of `eventId` with `event` that passes every check, for the
route it finds. -/
def AdmitsFrame (m : InvWantMesh) (eventId : String) (event : Event) (route : UpstreamRoute)
    (payloadBytes : ℕ) : Op nostr → Prop
  | .receive sourcePeer (.frame id carried) _ _ =>
    id = eventId ∧ carried = event ∧
      m.admitFrame nostr sourcePeer id carried true = .ok (route, payloadBytes)
  | .receiveVerifiedFrame sourcePeer id verified _ _ =>
    id = eventId ∧ verified.event = event ∧
      m.admitFrame nostr sourcePeer id verified.event false = .ok (route, payloadBytes)
  | _ => False

/-- An admitted frame finds the route it answers. -/
theorem AdmitsFrame.hasOpenRoute {op : Op nostr} {event : Event} {route : UpstreamRoute}
    {payloadBytes : ℕ} (h : op.AdmitsFrame m eventId event route payloadBytes)
    (hopen : route.fulfilled = false) : m.HasOpenRoute eventId := by
  unfold AdmitsFrame at h
  split at h
  · next sourcePeer id carried _ _ =>
    obtain ⟨rfl, rfl, hadmitted⟩ := h
    have hsigned : true = false → nostr.verify carried = .ok () := fun hflag => nomatch hflag
    exact ⟨route, (admitFrame_eq_ok hsigned hadmitted).1, hopen⟩
  · next verified _ _ =>
    obtain ⟨rfl, rfl, hadmitted⟩ := h
    exact ⟨route, (admitFrame_eq_ok (fun _ => verified.verified) hadmitted).1, hopen⟩
  · cases h

/-- An admitted frame for an open route is sent to every peer that waits for it. -/
theorem AdmitsFrame.emitted {op : Op nostr} {order : RouteOrder} {event : Event}
    {route : UpstreamRoute} {payloadBytes : ℕ} {peerId : String} {deadline : ℕ}
    (h : op.AdmitsFrame (op.pruned (InvWantMesh.prune order) m) eventId event route payloadBytes)
    (hopen : route.fulfilled = false)
    (hwaits : (op.pruned (InvWantMesh.prune order) m).WaitsUntil peerId eventId deadline) :
    .send peerId (.frame eventId event) ∈ (op.apply (InvWantMesh.prune order) m).1.emitted := by
  unfold AdmitsFrame at h
  split at h
  · next sourcePeer id carried peers t =>
    obtain ⟨rfl, rfl, hadmitted⟩ := h
    change (m.prune order t).admitFrame nostr sourcePeer id carried true = _ at hadmitted
    simp only [apply, InvWantMesh.receive, InvWantMesh.dispatch, InvWantMesh.receiveFrame,
      hadmitted, hopen, recordRejection]
    exact hwaits.acceptFrame route sourcePeer carried payloadBytes peers t
  · next sourcePeer id verified peers t =>
    obtain ⟨rfl, rfl, hadmitted⟩ := h
    change (m.prune order t).admitFrame nostr sourcePeer id verified.event false = _ at hadmitted
    simp only [apply, InvWantMesh.receiveVerifiedFrame, InvWantMesh.receiveFrame, hadmitted, hopen,
      recordRejection]
    exact hwaits.acceptFrame route sourcePeer verified.event payloadBytes peers t
  · cases h

end Op

open InvWantMesh

section Runs

variable {nostr : NostrCrate} {options : InvWantMeshOptions}

namespace Step

variable {s : Step nostr} {m : InvWantMesh} {peerId eventId : String} {deadline : ℕ}

/-- The route of `eventId` is live at the step: it is not over at its prune, and neither answered,
dismissed nor evicted by its call. -/
def KeepsOpen (s : Step nostr) (m : InvWantMesh) (eventId : String) : Prop :=
  (s.op.pruned (InvWantMesh.prune s.order) m).HasOpenRoute eventId ∧
    (s.run m).2.HasOpenRoute eventId

/-- The step drops the peers that wait for the event. -/
def DropsWaiting (s : Step nostr) (m : InvWantMesh) (eventId : String) : Prop :=
  ∃ nowMs, s.clock = some nowMs ∧ m.DropsWaiting eventId nowMs

theorem waitsUntil_pruned (hwaits : m.WaitsUntil peerId eventId deadline)
    (hopen : (s.op.pruned (InvWantMesh.prune s.order) m).HasOpenRoute eventId)
    (hkept : ¬s.DropsWaiting m eventId) :
    (s.op.pruned (InvWantMesh.prune s.order) m).WaitsUntil peerId eventId deadline := by
  unfold Op.pruned at hopen ⊢
  cases hclock : s.op.clock with
  | none => exact hwaits
  | some nowMs =>
    rw [hclock] at hopen
    exact hwaits.prune hopen fun hdrops => hkept ⟨nowMs, hclock, hdrops⟩

theorem waitsUntil_run {c : ℕ} (htimely : Timely c m) (hclock : c ≤ s.clock.getD c)
    (hwaits : m.WaitsUntil peerId eventId deadline) (hlive : s.KeepsOpen m eventId)
    (hkept : ¬s.DropsWaiting m eventId) : (s.run m).2.WaitsUntil peerId eventId deadline :=
  Op.apply_keepsWaiting htimely s.order s.op hclock hlive.1 hlive.2 peerId deadline
    (waitsUntil_pruned hwaits hlive.1 hkept)

end Step

/-- A run in which a peer waits and is answered: `peerId` asks for `eventId` at `t` and is
recorded as waiting; through the calls `between` the route of the event is live; and then, at
`t'` and within the route time to live of the want, a frame with the event is admitted. The clock
never goes back. -/
structure Awaited (options : InvWantMeshOptions) (before : List (Step nostr)) (want : Step nostr)
    (between : List (Step nostr)) (answer : Step nostr) (peerId eventId : String) (event : Event)
    (t t' : ℕ) : Prop where
  clock : ((before ++ want :: (between ++ [answer])).filterMap Step.clock).Pairwise (· ≤ ·)
  want_op : ∃ peers, want.op = .receive peerId (.want eventId) peers t
  recorded : ∃ deadline,
    (meshAfter options (before ++ [want])).WaitsUntil peerId eventId deadline
  live : ∀ first s rest, between = first ++ s :: rest →
    s.KeepsOpen (meshAfter options (before ++ want :: first)) eventId
  answer_clock : answer.clock = some t'
  admitted : ∃ route payloadBytes, route.fulfilled = false ∧
    answer.op.AdmitsFrame (answer.op.pruned (InvWantMesh.prune answer.order)
      (meshAfter options (before ++ want :: between))) eventId event route payloadBytes
  in_time : t' < t + options.normalize.routeTtlMs

namespace Awaited

variable {before between : List (Step nostr)} {want answer : Step nostr}
  {peerId eventId : String} {event : Event} {t t' deadline : ℕ}

/-- The peer keeps waiting as long as no call drops the entry it waits in. -/
theorem waitsUntil (h : Awaited options before want between answer peerId eventId event t t')
    (hwaits : (meshAfter options (before ++ [want])).WaitsUntil peerId eventId deadline)
    {first rest : List (Step nostr)} (hsplit : between = first ++ rest)
    (hkept : ∀ front s back, first = front ++ s :: back →
      ¬s.DropsWaiting (meshAfter options (before ++ want :: front)) eventId) :
    (meshAfter options (before ++ want :: first)).WaitsUntil peerId eventId deadline := by
  -- Induction over the calls since the want, from the last one.
  induction first using List.reverseRecOn generalizing rest with
  | nil => exact hwaits
  | append_singleton first s ih =>
    have hsplit' : between = first ++ s :: rest := by rw [hsplit, List.append_assoc]; rfl
    have hwaiting := ih hsplit' fun front s' back hfront =>
      hkept front s' (back ++ [s]) (by rw [hfront]; simp)
    have hclocked := Mealy.clockedFrom_of_pairwise h.clock fun t _ => Nat.zero_le t
    rw [hsplit', show before ++ want :: (first ++ s :: rest ++ [answer])
      = (before ++ want :: first) ++ (s :: rest ++ [answer]) by simp] at hclocked
    obtain ⟨hfront, hnext, _⟩ := Mealy.clockedFrom_append.mp hclocked
    have hrun := Step.waitsUntil_run (Timely.meshAfter options hfront) hnext hwaiting
      (h.live first s rest hsplit') (hkept first s [] rfl)
    rw [show before ++ want :: (first ++ [s]) = (before ++ want :: first) ++ [s] by simp,
      meshAfter_concat]
    exact hrun

/-- The answer is sent to the peer if no call since the want drops its entry. -/
theorem sent (h : Awaited options before want between answer peerId eventId event t t')
    (hwaits : (meshAfter options (before ++ [want])).WaitsUntil peerId eventId deadline)
    (hkept : ∀ first s rest, between ++ [answer] = first ++ s :: rest →
      ¬s.DropsWaiting (meshAfter options (before ++ want :: first)) eventId) :
    .send peerId (.frame eventId event) ∈
      (answer.run (meshAfter options (before ++ want :: between))).1.emitted := by
  have hwaiting := h.waitsUntil hwaits (List.append_nil between).symm fun front s back hfront =>
    hkept front s (back ++ [answer]) (by rw [hfront]; simp)
  obtain ⟨route, payloadBytes, hopen, hadmits⟩ := h.admitted
  have hpruned := Step.waitsUntil_pruned hwaiting (hadmits.hasOpenRoute hopen)
    (hkept between answer [] rfl)
  exact hadmits.emitted hopen hpruned

end Awaited

/-- A waiting want is answered in every run in which no call between the want and the answer,
nor the answer itself, prunes at a time when the entry that the peer waits in is over. -/
theorem awaited_frame_sent (options : InvWantMeshOptions) (before : List (Step nostr))
    (want : Step nostr) (between : List (Step nostr)) (answer : Step nostr)
    (peerId eventId : String) (event : Event) (t t' : ℕ)
    (h : Awaited options before want between answer peerId eventId event t t')
    (hkept : ∀ first s rest, between ++ [answer] = first ++ s :: rest →
      ¬s.DropsWaiting (meshAfter options (before ++ want :: first)) eventId) :
    .send peerId (.frame eventId event) ∈
      (answer.run (meshAfter options (before ++ want :: between))).1.emitted := by
  obtain ⟨deadline, hwaits⟩ := h.recorded
  exact h.sent hwaits hkept

end Runs

/-- `p` announces a note at 10 and `a` waits for it from 20 on; at 60 an alternate extends the
route. The entry of `a` is over at 120, the route at 160. -/
def extendedRun : List (Step noteCrate) :=
  [noteAnnounced 10,
    .ascending (.receive "a" (.want noteA.id.toHex) [] 20),
    .ascending (.receive "q" (noteInventory noteA) [] 60)]

/-- `b` asks for the note and joins the entry of `a`. -/
def joiningWant : Step noteCrate := .ascending (.receive "b" (.want noteA.id.toHex) [] 70)

/-- The answer at `t'`, within the time to live of the want of `b`. -/
theorem awaited_joiningWant (t' : ℕ) (h : t' = 100 ∨ t' = 130) :
    Awaited { routeTtlMs := 100, eventTtlMs := 1000 } extendedRun joiningWant [] (noteReceived t')
      "b" noteA.id.toHex noteA 70 t' where
  clock := by rcases h with rfl | rfl <;> decide
  want_op := ⟨[], rfl⟩
  recorded := by
    have hentry : ((meshAfter { routeTtlMs := 100, eventTtlMs := 1000 }
        (extendedRun ++ [joiningWant])).pendingDownstream.lookup noteA.id.toHex).map
          (fun pending => (pending.peers, pending.expiresAtMs)) = some ({"a", "b"}, 120) := by
      decide +kernel
    obtain ⟨pending, hlookup, hfields⟩ := Option.map_eq_some_iff.mp hentry
    obtain ⟨hpeers, hdeadline⟩ := Prod.mk.inj hfields
    exact ⟨120, pending, hlookup, by rw [hpeers]; decide, hdeadline⟩
  live first s rest hsplit := by simp at hsplit
  answer_clock := rfl
  admitted := by
    refine ⟨⟨"p", {"q"}, ∅, 1, noteA.plainJson.length, 4, 160, false⟩, noteA.plainJson.length,
      rfl, rfl, rfl, ?_⟩
    rcases h with rfl | rfl <;> decide +kernel
  in_time := by rcases h with rfl | rfl <;> decide

/-- An answer at 100 comes before any prune. -/
theorem awaited_frame_sent_joiningWant :
    .send "b" (.frame noteA.id.toHex noteA) ∈
      ((noteReceived 100).run (meshAfter { routeTtlMs := 100, eventTtlMs := 1000 }
        (extendedRun ++ joiningWant :: []))).1.emitted := by
  refine awaited_frame_sent _ _ _ _ _ _ _ _ 70 100 (awaited_joiningWant 100 (.inl rfl)) ?_
  rintro first s rest hsplit ⟨nowMs, hclock, hdue, _⟩
  cases first with
  | nil =>
    obtain ⟨rfl, _⟩ := List.cons.inj hsplit
    cases hclock
    revert hdue
    decide +kernel
  | cons _ _ => simp at hsplit

/-- An answer at 130 is not sent to `b`: its prune drops the entry of `a`, and `b` with it, on a
route that is live until 160. -/
theorem awaited_frame_not_sent :
    Awaited { routeTtlMs := 100, eventTtlMs := 1000 } extendedRun joiningWant [] (noteReceived 130)
        "b" noteA.id.toHex noteA 70 130 ∧
      .send "b" (.frame noteA.id.toHex noteA) ∉
        ((noteReceived 130).run (meshAfter { routeTtlMs := 100, eventTtlMs := 1000 }
          (extendedRun ++ joiningWant :: []))).1.emitted :=
  ⟨awaited_joiningWant 130 (.inr rfl), by decide +kernel⟩

end NostrPubsub
