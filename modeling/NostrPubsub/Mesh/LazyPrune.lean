import NostrPubsub.Mesh.Accounting
import NostrPubsub.Mesh.Lockstep

/-!
# The lazy prune

`prune` skips its body until the next prune time. The mesh is compared with one that runs the
body in every call (`Step.runEager`, what the TypeScript mesh does). The two agree on
everything but the next prune time (`Agree`) as long as a skipped body would have found
nothing to drop.

For the cache, the seen and delivered windows, the routes and the wants that is always so: the
next prune time is not after any of their deadlines. It does not stand for the waiting peers,
whose entry keeps the deadline it was made with when the route is extended. A call that skips
the prune while such an entry is over (`SkipsOverdue`) leaves it in place, and the two meshes
part.
-/

namespace NostrPubsub

namespace InvWantMesh

/-! ## Meshes that agree up to the next prune time -/

/-- The mesh with another next prune time. -/
def withNextPrune (m : InvWantMesh) (next : WithTop ℕ) : InvWantMesh :=
  { m with nextPruneAtMs := next }

/-- The meshes differ at most in the next prune time. -/
def Agree (m m' : InvWantMesh) : Prop := ∃ next, m' = m.withNextPrune next

/-- Two calls return the same and leave meshes that agree. -/
def Alike {α : Type*} (r r' : α × InvWantMesh) : Prop := r'.1 = r.1 ∧ Agree r.2 r'.2

namespace Agree

variable {m m' : InvWantMesh}

theorem refl (m : InvWantMesh) : Agree m m := ⟨m.nextPruneAtMs, rfl⟩

theorem recordPeerBehavior (h : Agree m m') (peerId : String) (delta : ℤ)
    (evidence : PeerBehaviorEvidence) :
    Agree (m.recordPeerBehavior peerId delta evidence)
      (m'.recordPeerBehavior peerId delta evidence) := by
  obtain ⟨next, rfl⟩ := h
  exact ⟨next, rfl⟩

theorem storeEvent (h : Agree m m') (event : Event) (payloadBytes nowMs : ℕ) :
    Agree (m.storeEvent event payloadBytes nowMs) (m'.storeEvent event payloadBytes nowMs) := by
  obtain ⟨next, rfl⟩ := h
  exact ⟨_, rfl⟩

theorem removePendingEvent (h : Agree m m') (eventId : String) :
    Agree (m.removePendingEvent eventId) (m'.removePendingEvent eventId) := by
  obtain ⟨next, rfl⟩ := h
  exact ⟨next, rfl⟩

theorem closeRoute (h : Agree m m') (eventId : String) :
    Agree (m.closeRoute eventId) (m'.closeRoute eventId) := by
  obtain ⟨next, rfl⟩ := h
  exact ⟨next, rfl⟩

theorem dismissFrame (h : Agree m m') (peerId eventId : String) :
    Agree (m.dismissFrame peerId eventId) (m'.dismissFrame peerId eventId) := by
  obtain ⟨next, rfl⟩ := h
  unfold InvWantMesh.dismissFrame
  by_cases hroute : (m.upstreamRoutes.lookup eventId).any fun route => route.hasProvider peerId
  · rw [if_pos hroute]
    exact ⟨next, if_pos hroute⟩
  · rw [if_neg hroute]
    exact ⟨next, if_neg hroute⟩

theorem recordTransportDisruption (h : Agree m m') (peerId eventId : String) :
    Alike (m.recordTransportDisruption peerId eventId)
      (m'.recordTransportDisruption peerId eventId) := by
  obtain ⟨next, rfl⟩ := h
  unfold InvWantMesh.recordTransportDisruption withNextPrune
  cases m.upstreamRoutes.lookup eventId with
  | none => exact ⟨rfl, next, rfl⟩
  | some route =>
    simp only
    split
    · exact ⟨rfl, next, rfl⟩
    · exact ⟨rfl, next, rfl⟩

theorem extendRoute (h : Agree m m') (sourcePeer eventId : String)
    (eventKind payloadBytes hopLimit nowMs : ℕ) :
    Alike (m.extendRoute sourcePeer eventId eventKind payloadBytes hopLimit nowMs)
      (m'.extendRoute sourcePeer eventId eventKind payloadBytes hopLimit nowMs) := by
  obtain ⟨next, rfl⟩ := h
  unfold InvWantMesh.extendRoute withNextPrune
  cases m.upstreamRoutes.lookup eventId with
  | none => exact ⟨rfl, next, rfl⟩
  | some route =>
    simp only
    split
    · exact ⟨rfl, next, rfl⟩
    split
    · exact ⟨rfl, next, rfl⟩
    split
    · exact ⟨rfl, next, rfl⟩
    split
    · exact ⟨rfl, next, rfl⟩
    · exact ⟨rfl, next, rfl⟩

theorem openRoute (h : Agree m m') (sourcePeer eventId : String)
    (eventKind payloadBytes hopLimit nowMs : ℕ) :
    Agree (m.openRoute sourcePeer eventId eventKind payloadBytes hopLimit nowMs).2
      (m'.openRoute sourcePeer eventId eventKind payloadBytes hopLimit nowMs).2 := by
  obtain ⟨next, rfl⟩ := h
  exact ⟨next, rfl⟩

theorem addPendingPeer (h : Agree m m') (sourcePeer eventId : String) (nowMs : ℕ) :
    Agree (m.addPendingPeer sourcePeer eventId nowMs)
      (m'.addPendingPeer sourcePeer eventId nowMs) := by
  obtain ⟨next, rfl⟩ := h
  unfold InvWantMesh.addPendingPeer withNextPrune
  simp only
  split
  · exact ⟨next, rfl⟩
  · exact ⟨next, rfl⟩

/-- The eviction loop of `remember_inventory` does not look at the next prune time. -/
theorem evictOldestInventories_eq (order : List String) (m : InvWantMesh) (next : WithTop ℕ) :
    evictOldestInventories order (m.withNextPrune next)
      = (evictOldestInventories order m).withNextPrune next := by
  induction order generalizing m with
  | nil => rfl
  | cons oldest rest ih =>
    rw [InvWantMesh.evictOldestInventories, InvWantMesh.evictOldestInventories]
    by_cases hfull : m.options.maxSeenEvents ≤ m.seenInventories.size
    · rw [if_pos hfull]
      exact (if_pos hfull).trans (ih (m.forgetOldestInventory oldest rest))
    · rw [if_neg hfull]
      exact if_neg hfull

theorem rememberInventory (h : Agree m m') (eventId : String) (nowMs : ℕ) :
    Alike (m.rememberInventory eventId nowMs) (m'.rememberInventory eventId nowMs) := by
  obtain ⟨next, rfl⟩ := h
  cases hseen : m.isSeen eventId nowMs with
  | true =>
    have hseen' : (m.withNextPrune next).isSeen eventId nowMs = true := hseen
    rw [rememberInventory_of_seen hseen, rememberInventory_of_seen hseen']
    exact ⟨rfl, next, rfl⟩
  | false =>
    have hseen' : (m.withNextPrune next).isSeen eventId nowMs = false := hseen
    refine ⟨(rememberInventory_of_not_seen hseen').1.trans
      (rememberInventory_of_not_seen hseen).1.symm, ?_⟩
    rcases rememberInventory_snd hseen with ⟨hmem, heq⟩ | ⟨hfresh, heq⟩ <;>
      rcases rememberInventory_snd hseen' with ⟨hmem', heq'⟩ | ⟨hfresh', heq'⟩ <;>
      rw [heq, heq']
    · exact ⟨_, rfl⟩
    · exact absurd hmem hfresh'
    · exact absurd hmem' hfresh
    · have hevict : InvWantMesh.evictOldestInventories (m.withNextPrune next).seenOrder
          (m.withNextPrune next)
          = (InvWantMesh.evictOldestInventories m.seenOrder m).withNextPrune next :=
        evictOldestInventories_eq m.seenOrder m next
      rw [hevict]
      exact ⟨_, rfl⟩

theorem rememberDelivered (h : Agree m m') (eventId : String) (nowMs : ℕ) :
    Alike (m.rememberDelivered eventId nowMs) (m'.rememberDelivered eventId nowMs) := by
  obtain ⟨next, rfl⟩ := h
  unfold InvWantMesh.rememberDelivered withNextPrune
  simp only
  split
  · exact ⟨rfl, next, rfl⟩
  · exact ⟨rfl, _, rfl⟩

end Agree

namespace Alike

variable {m m' : InvWantMesh} {nostr : NostrCrate} {nowMs : ℕ}

theorem of_agree {α : Type*} (a : α) (h : Agree m m') : Alike (a, m) (a, m') := ⟨rfl, h⟩

/-- Two calls that take the same branch. -/
theorem ite {α : Type*} {p : Prop} [Decidable p] {r r' s s' : α × InvWantMesh} (h : Alike r r')
    (h' : Alike s s') : Alike (if p then r else s) (if p then r' else s') := by
  split
  · exact h
  · exact h'

theorem receiveInventory (h : Agree m m') (sourcePeer eventId : String)
    (eventKind payloadBytes hopLimit : ℕ) :
    Alike (m.receiveInventory sourcePeer eventId eventKind payloadBytes hopLimit nowMs)
      (m'.receiveInventory sourcePeer eventId eventKind payloadBytes hopLimit nowMs) := by
  obtain ⟨heq, hagree⟩ := h.rememberInventory eventId nowMs
  have hopened := hagree.openRoute sourcePeer eventId eventKind payloadBytes hopLimit nowMs
  have hextended := hagree.extendRoute sourcePeer eventId eventKind payloadBytes hopLimit nowMs
  obtain ⟨next, rfl⟩ := id h
  unfold InvWantMesh.receiveInventory
  simp only [show (m.withNextPrune next).options = m.options from rfl,
    show (m.withNextPrune next).cachedEvents = m.cachedEvents from rfl]
  split
  · exact of_agree _ h
  refine ite (of_agree _ h) (ite (of_agree _ h) (ite (of_agree _ h) ?_))
  -- Both meshes have seen the id, or neither has.
  rcases hr : m.rememberInventory eventId nowMs with ⟨isNew, m₁⟩
  rcases hr' : (m.withNextPrune next).rememberInventory eventId nowMs with ⟨isNew', m₁'⟩
  rw [hr, hr'] at heq hopened hextended
  obtain rfl : isNew' = isNew := heq
  cases isNew' with
  | false => exact hextended
  | true => exact ⟨rfl, hopened⟩

theorem receiveWant (h : Agree m m') (sourcePeer eventId : String) :
    Alike (m.receiveWant sourcePeer eventId nowMs) (m'.receiveWant sourcePeer eventId nowMs) := by
  have hwait := h.addPendingPeer sourcePeer eventId nowMs
  obtain ⟨next, rfl⟩ := id h
  unfold InvWantMesh.receiveWant
  simp only [show (m.withNextPrune next).upstreamRoutes = m.upstreamRoutes from rfl,
    show (m.withNextPrune next).cachedEvents = m.cachedEvents from rfl]
  split
  · exact of_agree _ h
  split
  · exact of_agree _ h
  split
  · exact of_agree _ h
  refine ite (of_agree _ h) ?_
  obtain ⟨next', hwait⟩ := hwait
  rw [hwait]
  exact ite ⟨rfl, next', rfl⟩ ⟨rfl, next', rfl⟩

theorem acceptFrame (h : Agree m m') (route : UpstreamRoute) (sourcePeer eventId : String)
    (event : Event) (payloadBytes : ℕ) (peers : List MeshPeer) :
    Alike (m.acceptFrame route sourcePeer eventId event payloadBytes peers nowMs)
      (m'.acceptFrame route sourcePeer eventId event payloadBytes peers nowMs) := by
  have hclosed := ((h.recordPeerBehavior sourcePeer validFrameReward .validFrame).storeEvent event
    payloadBytes nowMs).closeRoute eventId
  obtain ⟨heq, next, hagree⟩ := hclosed.rememberDelivered eventId nowMs
  unfold InvWantMesh.acceptFrame
  simp only [heq, hagree]
  exact ⟨rfl, next, rfl⟩

theorem receiveFrame (h : Agree m m') (sourcePeer eventId : String) (event : Event)
    (peers : List MeshPeer) (verifySignature : Bool) :
    Alike (m.receiveFrame nostr sourcePeer eventId event peers nowMs verifySignature)
      (m'.receiveFrame nostr sourcePeer eventId event peers nowMs verifySignature) := by
  have hadmitted : m'.admitFrame nostr sourcePeer eventId event verifySignature
      = m.admitFrame nostr sourcePeer eventId event verifySignature := by
    obtain ⟨next, rfl⟩ := h
    rfl
  unfold InvWantMesh.receiveFrame
  rw [hadmitted]
  split
  · exact of_agree _ h
  · next route payloadBytes _ =>
    obtain ⟨heq, hagree⟩ :=
      @acceptFrame m m' nowMs h route sourcePeer eventId event payloadBytes peers
    exact ite (of_agree _ h) ⟨congrArg Except.ok heq, hagree⟩

theorem recordRejection {r r' : Except PubsubError (List InvWantAction) × InvWantMesh}
    (h : Alike r r') (sourcePeer : String) :
    Alike (recordRejection sourcePeer r) (recordRejection sourcePeer r') := by
  obtain ⟨result, m⟩ := r
  obtain ⟨result', m'⟩ := r'
  obtain ⟨rfl, hagree⟩ := h
  cases result' with
  | error error => exact ⟨rfl, hagree.recordPeerBehavior _ _ _⟩
  | ok actions => exact ⟨rfl, hagree⟩

theorem publishValidated (h : Agree m m') (event : Event) (eventId : String) (payloadBytes : ℕ)
    (peers : List MeshPeer) :
    Alike (publishValidated event eventId payloadBytes peers nowMs m)
      (publishValidated event eventId payloadBytes peers nowMs m') := by
  obtain ⟨heq, hagree⟩ := (h.storeEvent event payloadBytes nowMs).rememberInventory eventId nowMs
  unfold InvWantMesh.publishValidated
  simp only
  rcases hr : (m.storeEvent event payloadBytes nowMs).rememberInventory eventId nowMs with
    ⟨isNew, m₁⟩
  rcases hr' : (m'.storeEvent event payloadBytes nowMs).rememberInventory eventId nowMs with
    ⟨isNew', m₁'⟩
  rw [hr, hr'] at heq hagree
  obtain rfl : isNew' = isNew := heq
  obtain ⟨next, hagree⟩ := hagree
  simp only at hagree
  subst hagree
  cases isNew' with
  | false => exact ⟨rfl, next, rfl⟩
  | true => exact ⟨rfl, next, rfl⟩

theorem withValidated {continue_ : String → ℕ → InvWantMesh → List InvWantAction × InvWantMesh}
    (validated : Except PubsubError (String × ℕ)) (h : Agree m m')
    (hcontinue : ∀ eventId payloadBytes,
      Alike (continue_ eventId payloadBytes m) (continue_ eventId payloadBytes m')) :
    Alike (withValidated validated continue_ m) (withValidated validated continue_ m') := by
  unfold InvWantMesh.withValidated
  split
  · exact of_agree _ h
  · obtain ⟨heq, hagree⟩ := hcontinue _ _
    exact ⟨congrArg Except.ok heq, hagree⟩

end Alike

/-! ## Skipping the body -/

/-- The body of `prune` does not look at the next prune time. -/
theorem Agree.pruneExpired_eq {m m' : InvWantMesh} (h : Agree m m') (order : RouteOrder)
    (nowMs : ℕ) : m'.pruneExpired order nowMs = m.pruneExpired order nowMs := by
  have hrecorded : ∀ peers, Agree (m.recordUnserved peers) (m'.recordUnserved peers) := by
    intro peers
    induction peers generalizing m m' with
    | nil => exact h
    | cons peerId rest ih => exact ih (h.recordPeerBehavior peerId _ _)
  have hproviders : m'.expiredProviders order nowMs = m.expiredProviders order nowMs := by
    obtain ⟨next, rfl⟩ := h
    rfl
  obtain ⟨next, heq⟩ := hrecorded (m.expiredProviders order nowMs)
  unfold pruneExpired
  rw [hproviders, heq]
  rfl

/-- The call at `nowMs` skips the prune although the entry of a waiting peer is over. -/
def SkipsOverdue (m : InvWantMesh) (nowMs : ℕ) : Prop :=
  (nowMs : WithTop ℕ) < m.nextPruneAtMs ∧
    ∃ eventId pending, m.pendingDownstream.lookup eventId = some pending ∧
      pending.expiresAtMs ≤ nowMs

section Skipped

variable {options : InvWantMeshOptions} {c nowMs : ℕ} {m : InvWantMesh}

/-- No route is over while the prune is skipped. -/
theorem Timely.expiredProviders_eq_nil (h : Timely c m)
    (hskip : (nowMs : WithTop ℕ) < m.nextPruneAtMs) (order : RouteOrder) :
    m.expiredProviders order nowMs = [] := by
  have hnone : ((order.visit m.upstreamRoutes).filter fun entry =>
      !entry.2.fulfilled && decide (entry.2.expiresAtMs ≤ nowMs)) = [] := by
    rw [List.filter_eq_nil_iff]
    rintro ⟨eventId, route⟩ hentry
    rw [order.mem_visit] at hentry
    have hlater : nowMs < route.expiresAtMs :=
      WithTop.coe_lt_coe.mp (hskip.trans_le (h.inLockstep.next_le_route _ _ hentry))
    intro hexpired
    simp only [Bool.and_eq_true, decide_eq_true_eq] at hexpired
    exact absurd hexpired.2 (Nat.not_le.mpr hlater)
  rw [expiredProviders, hnone, List.flatMap_nil]

/-- Nothing is dropped while the prune is skipped and no entry of waiting peers is over. -/
theorem dropExpired_eq_self (hconsistent : Consistent options m) (h : Timely c m)
    (hskip : (nowMs : WithTop ℕ) < m.nextPruneAtMs) (hpending : ¬m.SkipsOverdue nowMs) :
    m.dropExpired nowMs = m := by
  have hlater : ∀ {deadline : ℕ}, m.nextPruneAtMs ≤ (deadline : ℕ) → nowMs < deadline :=
    fun hle => WithTop.coe_lt_coe.mp (hskip.trans_le hle)
  have hcached : m.cachedEvents.filter (fun _ cached => decide (nowMs < cached.expiresAtMs))
      = m.cachedEvents :=
    Finmap.filter_eq_self fun id cached hid => decide_eq_true (hlater (h.tracked.cached _ _ hid))
  have hseen : m.seenInventories.filter (fun _ expiry => decide (nowMs < expiry))
      = m.seenInventories :=
    Finmap.filter_eq_self fun id expiry hid => decide_eq_true (hlater (h.tracked.seen _ _ hid))
  have hdelivered : m.deliveredEvents.filter (fun _ expiry => decide (nowMs < expiry))
      = m.deliveredEvents :=
    Finmap.filter_eq_self fun id expiry hid =>
      decide_eq_true (hlater (h.tracked.delivered _ _ hid))
  have hroutes : m.upstreamRoutes.filter (fun _ route => decide (nowMs < route.expiresAtMs))
      = m.upstreamRoutes :=
    Finmap.filter_eq_self fun id route hid =>
      decide_eq_true (hlater (h.inLockstep.next_le_route _ _ hid))
  have hwaiting : m.pendingDownstream.filter (fun eventId pending =>
      decide (nowMs < pending.expiresAtMs ∧ eventId ∈ m.upstreamRoutes))
      = m.pendingDownstream := by
    refine Finmap.filter_eq_self fun id pending hid => decide_eq_true ⟨?_, ?_⟩
    · by_contra hover
      exact hpending ⟨hskip, id, pending, hid, Nat.le_of_not_lt hover⟩
    · exact hconsistent.routes.pending_route id (Finmap.mem_of_lookup_eq_some hid)
  have hwants : m.wantForwarded.filter (fun eventId expiry =>
      decide (nowMs < expiry ∧ eventId ∈ m.upstreamRoutes)) = m.wantForwarded := by
    refine Finmap.filter_eq_self fun id expiry hid => decide_eq_true ⟨?_, ?_⟩
    · rw [h.lockstep.want_eq] at hid
      obtain ⟨route, hroute, rfl⟩ := Option.map_eq_some_iff.mp hid
      exact hlater (h.inLockstep.next_le_route _ _ hroute)
    · exact hconsistent.routes.want_route id (Finmap.mem_of_lookup_eq_some hid)
  -- The queues list the keys, and the totals are exact.
  have hqueue : ∀ {β : Type} {order : List String} {s : Table β}, Enumerates order s →
      order.filter (fun eventId => eventId ∈ s) = order :=
    fun henum => List.filter_eq_self.mpr fun id hid => decide_eq_true ((henum.mem_iff id).mp hid)
  have hbytes : (m.cachedEvents.total fun _ cached => cached.payloadBytes) = m.cachedEventBytes :=
    hconsistent.cache.bytes_eq.symm
  have hcount : (m.pendingDownstream.total fun _ pending => pending.peers.card)
      = m.pendingPeerCount := hconsistent.routes.pending_count.symm
  have hcacheQueue : m.cacheOrder.filter (fun eventId => eventId ∈ m.cachedEvents)
      = m.cacheOrder := hqueue hconsistent.cache.order
  simp only [dropExpired, pruneCachedEvents, hcached, hseen, hdelivered, hroutes, hwaiting, hwants,
    hbytes, hcount, hcacheQueue, hqueue hconsistent.routes.order,
    hqueue hconsistent.delivered.order]

/-- A skipped body would have changed nothing but the next prune time. -/
theorem agree_pruneExpired (hconsistent : Consistent options m) (h : Timely c m)
    (hskip : (nowMs : WithTop ℕ) < m.nextPruneAtMs) (hpending : ¬m.SkipsOverdue nowMs)
    (order : RouteOrder) : Agree m (m.pruneExpired order nowMs) := by
  refine ⟨m.nextDeadline, ?_⟩
  have hrecorded : m.recordUnserved (m.expiredProviders order nowMs) = m := by
    rw [h.expiredProviders_eq_nil hskip order]
    rfl
  simp only [pruneExpired, hrecorded, dropExpired_eq_self hconsistent h hskip hpending]
  rfl

end Skipped

end InvWantMesh

/-! ## Calls and runs -/

open InvWantMesh

section Runs

variable {nostr : NostrCrate}

/-- On pruned meshes that agree, a call returns the same and they agree afterwards. -/
theorem Op.apply_alike {prune prune' : ℕ → InvWantMesh → InvWantMesh} {m m' : InvWantMesh}
    (op : Op nostr) (h : Agree (op.pruned prune m) (op.pruned prune' m')) :
    Alike (op.apply prune m) (op.apply prune' m') := by
  have hoptions : (op.pruned prune' m').options = (op.pruned prune m).options := by
    obtain ⟨next, heq⟩ := h
    rw [heq]
    rfl
  -- Two meshes that agree differ in when they prune next and in nothing that a call reads.
  have lift : ∀ {r r' : Except PubsubError (List InvWantAction) × InvWantMesh}, Alike r r' →
      Alike (OpResult.returned r.1, r.2) (OpResult.returned r'.1, r'.2) :=
    fun h => ⟨congrArg OpResult.returned h.1, h.2⟩
  cases op with
  | publish event peers t =>
    -- The options are the same, so both validate the event alike.
    change (prune' t m').options = (prune t m).options at hoptions
    refine lift ?_
    simp only [hoptions]
    exact .withValidated _ h fun _ _ => .publishValidated h event _ _ peers
  | publishVerified verified peers t =>
    change (prune' t m').options = (prune t m).options at hoptions
    refine lift ?_
    simp only [hoptions]
    exact .withValidated _ h fun _ _ => .publishValidated h verified.event _ _ peers
  | replayToPeer event peerId t =>
    change (prune' t m').options = (prune t m).options at hoptions
    refine lift ?_
    simp only [hoptions]
    refine .withValidated _ h fun eventId payloadBytes => ?_
    exact ⟨by simp [replayValidated, InvWantMesh.storeEvent, trackExpiry, hoptions],
      Agree.storeEvent h event payloadBytes t⟩
  | replayVerifiedToPeer verified peerId t =>
    change (prune' t m').options = (prune t m).options at hoptions
    refine lift ?_
    simp only [hoptions]
    refine .withValidated _ h fun eventId payloadBytes => ?_
    exact ⟨by simp [replayValidated, InvWantMesh.storeEvent, trackExpiry, hoptions],
      Agree.storeEvent h verified.event payloadBytes t⟩
  | replayCachedToPeer peerId t =>
    refine ⟨?_, h⟩
    obtain ⟨next, heq⟩ := h
    change prune' t m' = (prune t m).withNextPrune next at heq
    simp only [apply, InvWantMesh.replayCachedToPeer, heq]
    rfl
  | seedVerified verified t =>
    change (prune' t m').options = (prune t m).options at hoptions
    simp only [apply, InvWantMesh.seedVerified, hoptions]
    split
    · exact ⟨rfl, h⟩
    · exact ⟨rfl, Agree.storeEvent h _ _ _⟩
  | receive sourcePeer message peers t =>
    refine lift (.recordRejection ?_ sourcePeer)
    cases message with
    | inventory eventId eventKind payloadBytes hopLimit =>
      exact .receiveInventory h sourcePeer eventId eventKind payloadBytes hopLimit
    | want eventId => exact .receiveWant h sourcePeer eventId
    | frame eventId event => exact .receiveFrame h sourcePeer eventId event peers true
  | receiveVerifiedFrame sourcePeer eventId verified peers t =>
    exact lift (.recordRejection (.receiveFrame h sourcePeer eventId verified.event peers false)
      sourcePeer)
  | dismissFrame peerId eventId => exact ⟨rfl, Agree.dismissFrame h peerId eventId⟩
  | recordInvalidMessage peerId => exact ⟨rfl, Agree.recordPeerBehavior h _ _ _⟩
  | recordTransportDisruption peerId eventId =>
    obtain ⟨heq, hagree⟩ := Agree.recordTransportDisruption h peerId eventId
    exact ⟨congrArg OpResult.disrupted heq, hagree⟩
  | maintain t => exact ⟨rfl, h⟩

/-- Whether the prune is skipped or not, the mesh that a call works on agrees with the one
pruned eagerly, unless it skips over an entry of waiting peers. -/
theorem Step.agree_pruned {options : InvWantMeshOptions} {c : ℕ} {m m' : InvWantMesh}
    (s : Step nostr) (h : Agree m m') (hconsistent : Consistent options m) (htimely : Timely c m)
    (hpending : ∀ nowMs, s.clock = some nowMs → ¬m.SkipsOverdue nowMs) :
    Agree (s.op.pruned (InvWantMesh.prune s.order) m)
      (s.op.pruned (InvWantMesh.pruneExpired s.order) m') := by
  unfold Op.pruned
  cases hop : s.op.clock with
  | none => exact h
  | some nowMs =>
    simp only [h.pruneExpired_eq]
    unfold InvWantMesh.prune
    split
    · next hskip =>
      exact agree_pruneExpired hconsistent htimely hskip (hpending nowMs hop) s.order
    · exact Agree.refl _

/-- The two runs return the same and reach meshes that agree. -/
theorem agree_run (options : InvWantMeshOptions) (steps : List (Step nostr))
    (hclock : Mealy.ClockedFrom Step.clock 0 steps)
    (hpending : ∀ before s after nowMs, steps = before ++ s :: after → s.clock = some nowMs →
      ¬(meshAfter options before).SkipsOverdue nowMs) :
    eagerMeshResults options steps = meshResults options steps ∧
      Agree (meshAfter options steps) (eagerMeshAfter options steps) := by
  induction steps using List.reverseRecOn with
  | nil => exact ⟨rfl, Agree.refl _⟩
  | append_singleton steps next ih =>
    obtain ⟨hfront, _⟩ := Mealy.clockedFrom_append.mp hclock
    obtain ⟨hresults, hagree⟩ := ih hfront fun before s after nowMs hsplit hs =>
      hpending before s (after ++ [next]) nowMs (by rw [hsplit]; simp) hs
    have hpruned := next.agree_pruned hagree (Consistent.meshAfter options steps)
      (Timely.meshAfter options hfront)
      fun nowMs hs => hpending steps next [] nowMs rfl hs
    obtain ⟨heq, hafter⟩ := next.op.apply_alike hpruned
    refine ⟨?_, ?_⟩
    · rw [eagerMeshResults, meshResults, Mealy.outputs_concat, Mealy.outputs_concat]
      exact congrArg₂ _ hresults (congrArg (fun result => [result]) heq)
    · rw [meshAfter_concat, eagerMeshAfter, Mealy.after_concat]
      exact hafter

end Runs

/-- The lazy prune cannot be observed in the run: every call returns the same as on the mesh
that prunes in every call, and after every call the retained state and the peer evidence are
the same. -/
def LazyPruneUnobservable {nostr : NostrCrate} (options : InvWantMeshOptions)
    (steps : List (Step nostr)) : Prop :=
  meshResults options steps = eagerMeshResults options steps ∧
    ∀ before after, steps = before ++ after →
      (meshAfter options before).retainedState = (eagerMeshAfter options before).retainedState ∧
      (meshAfter options before).peerBehaviors = (eagerMeshAfter options before).peerBehaviors

/-- In a run whose clock does not go back, and in which no call skips the prune while an entry
of waiting peers is over, the lazy prune cannot be observed. -/
theorem lazyPruneUnobservable_of_not_skipsOverdue {nostr : NostrCrate}
    (options : InvWantMeshOptions) (steps : List (Step nostr))
    (hclock : (steps.filterMap Step.clock).Pairwise (· ≤ ·))
    (hpending : ∀ before s after nowMs, steps = before ++ s :: after → s.clock = some nowMs →
      ¬(meshAfter options before).SkipsOverdue nowMs) :
    LazyPruneUnobservable options steps := by
  have hclocked := Mealy.clockedFrom_of_pairwise hclock fun t _ => Nat.zero_le t
  refine ⟨(agree_run options steps hclocked hpending).1.symm, fun before after hsplit => ?_⟩
  subst hsplit
  obtain ⟨_, next, hagree⟩ := agree_run options before (Mealy.clockedFrom_append.mp hclocked).1
    fun first s rest nowMs hfirst hs =>
      hpending first s (rest ++ after) nowMs (by rw [hfirst]; simp) hs
  rw [hagree]
  exact ⟨rfl, rfl⟩

/-- A waiting peer that is served in time: `p` announces a note, `d` asks for it, and the prune at 60
is skipped; the note comes at 70 and is handed to `d`. -/
def servedRun : List (Step noteCrate) :=
  [noteAnnounced 0,
    .ascending (.receive "d" (.want noteA.id.toHex) [] 50),
    .ascending (.maintain 60),
    noteReceived 70,
    .ascending (.maintain 160)]

/-- While `d` waits its entry is not over when a call skips the prune. -/
theorem lazyPruneUnobservable_servedRun :
    ((meshAfter { routeTtlMs := 100, eventTtlMs := 1000 } (servedRun.take 3)).pendingDownstream.lookup
        noteA.id.toHex).map PendingPeers.peers = some {"d"} ∧
      LazyPruneUnobservable { routeTtlMs := 100, eventTtlMs := 1000 } servedRun := by
  refine ⟨by decide +kernel,
    lazyPruneUnobservable_of_not_skipsOverdue _ servedRun (by decide) ?_⟩
  rintro before s after nowMs hsplit hs ⟨-, eventId, pending, hlookup, hover⟩
  have hlater : ∀ k < 5, (servedRun[k]?.bind Step.clock).all (fun nowMs =>
      ((Finmap.Enumeration.ascending _).visit (meshAfter { routeTtlMs := 100, eventTtlMs := 1000 }
        (servedRun.take k)).pendingDownstream).all fun entry => decide (nowMs < entry.2.expiresAtMs))
      = true := by decide +kernel
  have hlength : before.length < 5 := by
    have hlen := congrArg List.length hsplit
    simp [servedRun] at hlen
    omega
  have htake : servedRun.take before.length = before := by
    rw [hsplit, List.take_left]
  have hnext : servedRun[before.length]? = some s := by
    rw [hsplit]
    simp
  have hall := hlater before.length hlength
  rw [hnext, Option.bind_some, hs, Option.all_some, htake, List.all_eq_true] at hall
  have hlt := of_decide_eq_true (hall ⟨eventId, pending⟩
    ((Finmap.Enumeration.ascending _).mem_visit.mpr hlookup))
  exact absurd hover (not_le.mpr hlt)

/-- A waiting peer whose entry outlives its deadline: `p` announces a note and `d` asks for it;
an alternate `q` extends the route but not the entry of `d`, which is over at 150; the prune at
120 schedules the next one for 190, so the one at 160 is skipped. -/
def overdueRun : List (Step noteCrate) :=
  [noteAnnounced 0,
    .ascending (.receive "d" (.want noteA.id.toHex) [] 50),
    .ascending (.receive "q" (noteInventory noteA) [] 90),
    .ascending (.maintain 120),
    .ascending (.maintain 160)]

/-- The lazy prune can be observed: after `overdueRun` the mesh still holds the waiting peer
that the eager mesh has dropped. -/
theorem not_lazyPruneUnobservable_overdueRun :
    (overdueRun.filterMap Step.clock).Pairwise (· ≤ ·) ∧
      ¬LazyPruneUnobservable { routeTtlMs := 100, eventTtlMs := 1000 } overdueRun := by
  refine ⟨by decide, fun h => ?_⟩
  have hretained := (h.2 overdueRun [] (List.append_nil _).symm).1
  have hdiffer : (meshAfter { routeTtlMs := 100, eventTtlMs := 1000 } overdueRun).retainedState ≠
      (eagerMeshAfter { routeTtlMs := 100, eventTtlMs := 1000 } overdueRun).retainedState := by
    decide +kernel
  exact hdiffer hretained

end NostrPubsub
