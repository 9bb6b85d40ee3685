import NostrPubsub.Mesh.Accounting
import NostrPubsub.Mesh.Closing
import NostrPubsub.Mesh.Evidence

/-!
# A route over one phase

`Carries` says once what a phase does to a route that it keeps: a route that is closed stays closed,
and a mark for a failed transport stays until its peer is asked again or the route is closed.
`Phase.validFrame_mem_evidence` and `Phase.unservedInventory_mem_evidence` say which route a phase
records evidence for: an open one that a frame closes, or an open one that is over and goes. The clock
plays no part in either.
-/

namespace NostrPubsub

/-! ## Routes that are kept -/

/-- The route of `eventId` before and after a phase that returns `actions`. -/
structure UpstreamRoute.Continues (eventId : String) (actions : List InvWantAction)
    (route route' : UpstreamRoute) : Prop where
  fulfilled : route.fulfilled = true → route'.fulfilled = true
  disrupted : ∀ peer ∈ route.transportDisruptedPeers,
    peer ∈ route'.transportDisruptedPeers ∨ route'.fulfilled = true ∨
      .send peer (.want eventId) ∈ actions

namespace InvWantMesh

/-- Every route that is there before and after a phase continues. -/
def Carries (m : InvWantMesh) (actions : List InvWantAction) (m' : InvWantMesh) : Prop :=
  ∀ eventId route route', m.upstreamRoutes.lookup eventId = some route →
    m'.upstreamRoutes.lookup eventId = some route' → route.Continues eventId actions route'

theorem NoNewRoute.lookup_eq {m m' : InvWantMesh} (h : ∀ Q, NoNewRoute Q m m') {eventId : String}
    {route : UpstreamRoute} (hroute : m'.upstreamRoutes.lookup eventId = some route) :
    m.upstreamRoutes.lookup eventId = some route := by
  obtain ⟨found, hfound, rfl⟩ := h (· = route) eventId ⟨route, hroute, rfl⟩
  exact hfound

theorem acceptFrame_upstreamRoutes (m : InvWantMesh) (route : UpstreamRoute)
    (sourcePeer eventId : String) (event : Event) (payloadBytes : ℕ) (peers : List MeshPeer)
    (nowMs : ℕ) :
    (m.acceptFrame route sourcePeer eventId event payloadBytes peers nowMs).2.upstreamRoutes =
      (m.closeRoute eventId).upstreamRoutes := by
  obtain ⟨_, _, _, hremember⟩ := (((m.recordPeerBehavior sourcePeer validFrameReward
    .validFrame).storeEvent event payloadBytes nowMs).closeRoute eventId).rememberDelivered_frame
      eventId nowMs
  simp only [acceptFrame]
  rw [hremember]
  rfl

namespace Carries

variable {m m' : InvWantMesh} {actions : List InvWantAction}

/-- Routes that are only dropped. -/
theorem of_noNewRoute (h : ∀ Q, NoNewRoute Q m m') : Carries m actions m' := by
  intro eventId route route' hroute hroute'
  have hsame := NoNewRoute.lookup_eq h hroute'
  rw [hroute] at hsame
  cases hsame
  exact ⟨id, fun _ hpeer => Or.inl hpeer⟩

theorem refl (m : InvWantMesh) : Carries m actions m := of_noNewRoute fun _ => .refl m

/-- One route is changed. -/
theorem of_insert {eventId : String} {route route' : UpstreamRoute}
    (hroute : m.upstreamRoutes.lookup eventId = some route)
    (hinsert : m'.upstreamRoutes = m.upstreamRoutes.insert eventId route')
    (h : route.Continues eventId actions route') : Carries m actions m' := by
  intro id before after hbefore hafter
  rw [hinsert] at hafter
  rcases Finmap.lookup_insert_eq_some.mp hafter with ⟨rfl, rfl⟩ | ⟨-, hold⟩
  · rw [hroute] at hbefore
    cases hbefore
    exact h
  · rw [hold] at hbefore
    cases hbefore
    exact ⟨fun hclosed => hclosed, fun _ hpeer => Or.inl hpeer⟩

/-- What the routes before and after are is all that matters. -/
theorem congr {m₁ m₂ : InvWantMesh} (h : Carries m actions m')
    (h₁ : m₁.upstreamRoutes = m.upstreamRoutes) (h₂ : m₂.upstreamRoutes = m'.upstreamRoutes) :
    Carries m₁ actions m₂ := by
  intro eventId route route' hroute hroute'
  rw [h₁] at hroute
  rw [h₂] at hroute'
  exact h eventId route route' hroute hroute'

theorem closeRoute (m : InvWantMesh) (eventId : String) :
    Carries m actions (m.closeRoute eventId) := by
  cases hroute : m.upstreamRoutes.lookup eventId with
  | none =>
    refine (refl m).congr rfl ?_
    simp [InvWantMesh.closeRoute, hroute]
  | some route =>
    have hinsert : (m.closeRoute eventId).upstreamRoutes = m.upstreamRoutes.insert eventId
        { route with fulfilled := true, transportDisruptedPeers := ∅ } := by
      simp [InvWantMesh.closeRoute, hroute]
    exact of_insert hroute hinsert ⟨fun _ => rfl, fun _ _ => Or.inr (Or.inl rfl)⟩

theorem dismissFrame (m : InvWantMesh) (peerId eventId : String) :
    Carries m actions (m.dismissFrame peerId eventId) := by
  unfold InvWantMesh.dismissFrame
  split
  · exact (closeRoute m eventId).congr rfl rfl
  · exact refl m

theorem recordTransportDisruption (m : InvWantMesh) (peerId eventId : String) :
    Carries m actions (m.recordTransportDisruption peerId eventId).2 := by
  unfold InvWantMesh.recordTransportDisruption
  split
  · exact refl m
  next route hroute =>
  split
  · exact of_insert hroute rfl ⟨id, fun _ hpeer => Or.inl (Finset.mem_insert_of_mem hpeer)⟩
  · exact refl m

/-- A provider that announces the event again is asked again, and its mark is gone. -/
theorem extendRoute (m : InvWantMesh) (sourcePeer eventId : String)
    (eventKind payloadBytes hopLimit nowMs : ℕ) :
    Carries m (OpResult.returned
        (m.extendRoute sourcePeer eventId eventKind payloadBytes hopLimit nowMs).1).emitted
      (m.extendRoute sourcePeer eventId eventKind payloadBytes hopLimit nowMs).2 := by
  have hasked : ∀ (marked : Finset String), ∀ peer ∈ marked,
      peer ∈ marked.erase sourcePeer ∨
        .send peer (.want eventId) ∈ [InvWantAction.send sourcePeer (.want eventId)] := by
    intro marked peer hpeer
    by_cases hsame : peer = sourcePeer
    · rw [hsame]
      exact Or.inr (List.mem_singleton.mpr rfl)
    · exact Or.inl (Finset.mem_erase.mpr ⟨hsame, hpeer⟩)
  rcases m.extendRoute_cases sourcePeer eventId eventKind payloadBytes hopLimit nowMs with
    ⟨heq, -⟩ | ⟨route, hroute, -, ⟨-, heq⟩ | ⟨-, heq⟩ | ⟨-, -, heq⟩⟩
  · rw [heq]
    exact refl m
  · rw [heq]
    refine of_insert hroute rfl ⟨id, fun peer hpeer => ?_⟩
    exact (hasked _ peer hpeer).imp_right Or.inr
  · rw [heq]
    exact of_insert hroute rfl ⟨id, fun _ hpeer => Or.inl hpeer⟩
  · rw [heq]
    refine of_insert hroute rfl ⟨id, fun peer hpeer => ?_⟩
    exact (hasked _ peer hpeer).imp_right Or.inr

/-- An id with a route is in the seen window, so that an inventory for it evicts nothing and the
route stays, even if its seen entry is over. -/
theorem receiveInventory (h : m.RoutesAccounted) (sourcePeer eventId : String)
    (eventKind payloadBytes hopLimit nowMs : ℕ) :
    Carries m (OpResult.returned
        (m.receiveInventory sourcePeer eventId eventKind payloadBytes hopLimit nowMs).1).emitted
      (m.receiveInventory sourcePeer eventId eventKind payloadBytes hopLimit nowMs).2 := by
  rcases m.receiveInventory_cases sourcePeer eventId eventKind payloadBytes hopLimit nowMs with
    ⟨heq, -⟩ | ⟨-, heq⟩ | ⟨hseen, heq⟩
  · rw [heq]
    exact refl m
  · rw [heq]
    exact extendRoute m sourcePeer eventId eventKind payloadBytes hopLimit nowMs
  rw [heq]
  intro id route route' hroute hroute'
  have hremember : ∀ found,
      (m.rememberInventory eventId nowMs).2.upstreamRoutes.lookup id = some found →
        m.upstreamRoutes.lookup id = some found :=
    fun _ => NoNewRoute.lookup_eq fun _ => .rememberInventory m eventId nowMs
  by_cases hheld : eventId ∈ (m.rememberInventory eventId nowMs).2.upstreamRoutes
  · simp only [openRoute, hheld, if_true] at hroute'
    have hsame := hremember route' hroute'
    rw [hroute] at hsame
    cases hsame
    exact ⟨fun hclosed => hclosed, fun _ hpeer => Or.inl hpeer⟩
  · simp only [openRoute, hheld, if_false] at hroute'
    rcases Finmap.lookup_insert_eq_some.mp hroute' with ⟨rfl, -⟩ | ⟨-, hold⟩
    · have hmem : id ∈ m.upstreamRoutes := Finmap.mem_of_lookup_eq_some hroute
      rcases rememberInventory_snd hseen with ⟨-, hkept⟩ | ⟨hunseen, -⟩
      · rw [hkept] at hheld
        exact absurd hmem hheld
      · exact absurd (h.route_mem_seen hmem) hunseen
    · have hsame := hremember route' hold
      rw [hroute] at hsame
      cases hsame
      exact ⟨fun hclosed => hclosed, fun _ hpeer => Or.inl hpeer⟩

/-- The first provider that is asked again loses its mark. -/
theorem receiveWant (m : InvWantMesh) (sourcePeer eventId : String) (nowMs : ℕ) :
    Carries m (OpResult.returned (m.receiveWant sourcePeer eventId nowMs).1).emitted
      (m.receiveWant sourcePeer eventId nowMs).2 := by
  unfold InvWantMesh.receiveWant
  split
  · exact refl m
  split
  · exact refl m
  split
  · exact refl m
  next route hroute =>
  split
  · exact refl m
  simp only
  split
  · exact (refl m).congr rfl addPendingPeer_upstreamRoutes
  · have hinsert : ((m.addPendingPeer sourcePeer eventId nowMs).forwardWant route
        eventId).2.upstreamRoutes = m.upstreamRoutes.insert eventId
          { route with
            transportDisruptedPeers := route.transportDisruptedPeers.erase route.peerId } := by
      rw [← @addPendingPeer_upstreamRoutes m nowMs sourcePeer eventId]
      rfl
    refine of_insert hroute hinsert ⟨id, fun peer hpeer => ?_⟩
    by_cases hsame : peer = route.peerId
    · rw [hsame]
      exact Or.inr (Or.inr (List.mem_singleton.mpr rfl))
    · exact Or.inl (Finset.mem_erase.mpr ⟨hsame, hpeer⟩)

theorem receiveFrame {nostr : NostrCrate} (m : InvWantMesh) (sourcePeer eventId : String)
    (event : Event) (peers : List MeshPeer) (nowMs : ℕ) (verifySignature : Bool) :
    Carries m actions
      (m.receiveFrame nostr sourcePeer eventId event peers nowMs verifySignature).2 := by
  unfold InvWantMesh.receiveFrame
  split
  · exact refl m
  next route payloadBytes _ =>
  split
  · exact refl m
  · exact (closeRoute m eventId).congr rfl
      (m.acceptFrame_upstreamRoutes route sourcePeer eventId event payloadBytes peers nowMs)

theorem recordRejection {sourcePeer : String}
    {result : Except PubsubError (List InvWantAction) × InvWantMesh}
    (h : Carries m (OpResult.returned result.1).emitted result.2) :
    Carries m (OpResult.returned (InvWantMesh.recordRejection sourcePeer result).1).emitted
      (InvWantMesh.recordRejection sourcePeer result).2 := by
  obtain ⟨error | actions, after⟩ := result
  · exact h.congr rfl rfl
  · exact h

end Carries

end InvWantMesh

open InvWantMesh in
theorem Op.carries {nostr : NostrCrate} {m : InvWantMesh} (h : m.RoutesAccounted) (op : Op nostr) :
    m.Carries (op.apply (fun _ m => m) m).1.emitted (op.apply (fun _ m => m) m).2 := by
  cases op with
  | publish event peers t =>
    exact .of_noNewRoute fun _ => .withValidated _ _ fun _ _ => .publishValidated _ _ _ _ _ _
  | publishVerified verified peers t =>
    exact .of_noNewRoute fun _ => .withValidated _ _ fun _ _ => .publishValidated _ _ _ _ _ _
  | replayToPeer event peerId t =>
    exact .of_noNewRoute fun _ => .withValidated _ _ fun _ _ => .replayValidated _ _ _ _ _ _
  | replayVerifiedToPeer verified peerId t =>
    exact .of_noNewRoute fun _ => .withValidated _ _ fun _ _ => .replayValidated _ _ _ _ _ _
  | replayCachedToPeer peerId t => exact .refl m
  | seedVerified verified t =>
    simp only [apply, InvWantMesh.seedVerified]
    split
    · exact .refl m
    · exact (Carries.refl m).congr rfl rfl
  | receive sourcePeer message peers t =>
    cases message with
    | inventory eventId eventKind payloadBytes hopLimit =>
      exact .recordRejection (.receiveInventory h _ _ _ _ _ _)
    | want eventId => exact .recordRejection (.receiveWant _ _ _ _)
    | frame eventId event => exact .recordRejection (.receiveFrame _ _ _ _ _ _ _)
  | receiveVerifiedFrame sourcePeer eventId verified peers t =>
    exact .recordRejection (.receiveFrame _ _ _ _ _ _ _)
  | dismissFrame peerId eventId => exact .dismissFrame _ _ _
  | recordInvalidMessage peerId => exact (Carries.refl m).congr rfl rfl
  | recordTransportDisruption peerId eventId => exact .recordTransportDisruption _ _ _
  | maintain t => exact .refl m

theorem Phase.carries {nostr : NostrCrate} {m : InvWantMesh} (h : m.RoutesAccounted)
    (p : Phase nostr) : m.Carries (p.run m).1.emitted (p.run m).2 := by
  cases p with
  | prune order nowMs => exact .of_noNewRoute fun _ => .prune m order nowMs
  | call op => exact op.carries h

/-! ## What the evidence of a phase says about a route -/

namespace InvWantMesh

variable {nostr : NostrCrate} {m : InvWantMesh} {peer eventId : String}

theorem hasRoute_fulfilled_closeRoute (h : eventId ∈ m.upstreamRoutes) :
    (m.closeRoute eventId).HasRoute (fun route => route.fulfilled = true) eventId := by
  obtain ⟨route, hroute⟩ := Finmap.mem_iff.mp h
  refine ⟨{ route with fulfilled := true, transportDisruptedPeers := ∅ }, ?_, rfl⟩
  simp [closeRoute, hroute]

/-- A frame is credited to a provider of an open route, which it closes. -/
theorem validFrame_mem_frameEvidence {sourcePeer id : String} {event : Event}
    {peers : List MeshPeer} {nowMs : ℕ} {verifySignature : Bool}
    (hverify : verifySignature = false → nostr.verify event = .ok ())
    (h : .validFrame peer eventId ∈ m.frameEvidence nostr sourcePeer id event verifySignature) :
    m.HasRoute (fun route => route.fulfilled = false ∧ peer ∈ route.providers) eventId ∧
      (recordRejection sourcePeer (m.receiveFrame nostr sourcePeer id event peers nowMs
        verifySignature)).2.HasRoute (fun route => route.fulfilled = true) eventId := by
  unfold frameEvidence at h
  split at h
  · cases List.mem_singleton.mp h
  next route payloadBytes hadmitted =>
  split at h
  · cases h
  next hopen =>
  cases List.mem_singleton.mp h
  obtain ⟨hroute, hprovider, -⟩ := admitFrame_eq_ok hverify hadmitted
  refine ⟨⟨route, hroute, Bool.eq_false_of_not_eq_true hopen, hprovider⟩, ?_⟩
  obtain ⟨found, hfound, hclosed⟩ :=
    hasRoute_fulfilled_closeRoute (Finmap.mem_of_lookup_eq_some hroute)
  refine ⟨found, ?_, hclosed⟩
  have haccepted : (recordRejection peer (m.receiveFrame nostr peer eventId event peers nowMs
      verifySignature)).2 =
        (m.acceptFrame route peer eventId event payloadBytes peers nowMs).2 := by
    unfold receiveFrame
    rw [hadmitted]
    simp only [if_neg hopen]
    rfl
  rw [haccepted, acceptFrame_upstreamRoutes]
  exact hfound

/-- What `prune` holds against a provider of a route: the route is over and still open, it goes, and
no failure of the provider's transport is marked. -/
theorem unservedInventory_mem_pruneEvidence {order : RouteOrder} {nowMs : ℕ}
    (h : .unservedInventory peer eventId ∈ m.pruneEvidence order nowMs) :
    m.HasRoute (fun route => route.fulfilled = false ∧ route.expiresAtMs ≤ nowMs ∧
        peer ∈ route.providers ∧ peer ∉ route.transportDisruptedPeers) eventId ∧
      eventId ∉ (m.prune order nowMs).upstreamRoutes := by
  unfold pruneEvidence at h
  split at h
  · cases h
  next hdue =>
  obtain ⟨⟨id, route⟩, hentry, h⟩ := List.mem_flatMap.mp h
  obtain ⟨provider, hprovider, heq⟩ := List.mem_map.mp h
  cases heq
  obtain ⟨hvisited, hexpired⟩ := List.mem_filter.mp hentry
  simp only [Bool.and_eq_true, Bool.not_eq_true', decide_eq_true_eq] at hexpired
  obtain ⟨hlisted, hunmarked⟩ := List.mem_filter.mp hprovider
  have hroute : m.upstreamRoutes.lookup id = some route := order.mem_visit.mp hvisited
  refine ⟨⟨route, hroute, hexpired.1, hexpired.2, ?_, of_decide_eq_true hunmarked⟩, ?_⟩
  · rw [UpstreamRoute.providers, Finset.mem_insert]
    exact (List.mem_cons.mp hlisted).imp_right Finset.mem_ascending.mp
  · intro hmem
    obtain ⟨kept, hkept⟩ := Finmap.mem_iff.mp hmem
    rw [prune, if_neg hdue] at hkept
    obtain ⟨hold, hlater⟩ := Finmap.lookup_filter_eq_some.mp hkept
    have hunchanged : (m.recordUnserved (m.expiredProviders order nowMs)).upstreamRoutes =
        m.upstreamRoutes :=
      @recordUnserved_preserves (fun m' => m'.upstreamRoutes = m.upstreamRoutes)
        (fun _ _ _ _ h => h) m rfl _
    have hsame : m.upstreamRoutes.lookup id = some kept := by
      rw [← hunchanged]
      exact hold
    rw [hroute] at hsame
    cases hsame
    exact absurd (of_decide_eq_true hlater) (Nat.not_lt.mpr hexpired.2)

end InvWantMesh

/-- The evidence is a frame that serves the event. -/
def Evidence.isFrameFor (eventId : String) : Evidence → Bool
  | .validFrame _ id => id == eventId
  | _ => false

theorem Evidence.eq_validFrame_of_isFrameFor {eventId : String} {e : Evidence}
    (h : e.isFrameFor eventId = true) : ∃ peer, e = .validFrame peer eventId := by
  cases e with
  | validFrame peer id => exact ⟨peer, by rw [eq_of_beq h]⟩
  | invalidMessage peer => cases h
  | unservedInventory peer id => cases h

namespace Phase

variable {nostr : NostrCrate} {m : InvWantMesh} {p : Phase nostr} {peer eventId : String}

theorem eq_unservedInventory_of_mem_pruneEvidence {order : RouteOrder} {nowMs : ℕ} {e : Evidence}
    (h : e ∈ m.pruneEvidence order nowMs) : ∃ peer eventId, e = .unservedInventory peer eventId := by
  unfold InvWantMesh.pruneEvidence at h
  split at h
  · cases h
  · obtain ⟨entry, -, h⟩ := List.mem_flatMap.mp h
    obtain ⟨peer, -, rfl⟩ := List.mem_map.mp h
    exact ⟨peer, entry.1, rfl⟩

/-- A call records at most one piece of evidence, and nobody is charged for an unserved event. -/
theorem evidence_call (op : Op nostr) :
    (op.evidence m).length ≤ 1 ∧ ∀ peer eventId, .unservedInventory peer eventId ∉ op.evidence m := by
  have hrejection : ∀ (sourcePeer : String) (result : Except PubsubError (List InvWantAction)),
      (InvWantMesh.rejectionEvidence sourcePeer result).length ≤ 1 ∧ ∀ peer eventId,
        .unservedInventory peer eventId ∉ InvWantMesh.rejectionEvidence sourcePeer result := by
    intro sourcePeer result
    cases result with
    | error error => exact ⟨Nat.le_refl 1, by simp [InvWantMesh.rejectionEvidence]⟩
    | ok actions => exact ⟨Nat.zero_le 1, by simp [InvWantMesh.rejectionEvidence]⟩
  have hframe : ∀ (sourcePeer id : String) (event : Event) (verifySignature : Bool),
      (m.frameEvidence nostr sourcePeer id event verifySignature).length ≤ 1 ∧ ∀ peer eventId,
        .unservedInventory peer eventId ∉
          m.frameEvidence nostr sourcePeer id event verifySignature := by
    intro sourcePeer id event verifySignature
    unfold InvWantMesh.frameEvidence
    split
    · exact ⟨Nat.le_refl 1, by simp⟩
    · split
      · exact ⟨Nat.zero_le 1, by simp⟩
      · exact ⟨Nat.le_refl 1, by simp⟩
  cases op with
  | receive sourcePeer message peers nowMs =>
    cases message with
    | inventory id eventKind payloadBytes hopLimit => exact hrejection _ _
    | want id => exact hrejection _ _
    | frame id event => exact hframe _ _ _ _
  | receiveVerifiedFrame sourcePeer id verified peers nowMs => exact hframe _ _ _ _
  | recordInvalidMessage peerId => exact ⟨Nat.le_refl 1, by simp [Op.evidence]⟩
  | _ => exact ⟨Nat.zero_le 1, by simp [Op.evidence]⟩

theorem validFrame_mem_evidence (h : .validFrame peer eventId ∈ p.evidence m) :
    m.HasRoute (fun route => route.fulfilled = false ∧ peer ∈ route.providers) eventId ∧
      (p.run m).2.HasRoute (fun route => route.fulfilled = true) eventId := by
  cases p with
  | prune order nowMs =>
    obtain ⟨_, _, heq⟩ := eq_unservedInventory_of_mem_pruneEvidence h
    cases heq
  | call op =>
    have hrejection : ∀ (sourcePeer : String) (result : Except PubsubError (List InvWantAction)),
        .validFrame peer eventId ∉ InvWantMesh.rejectionEvidence sourcePeer result := by
      intro sourcePeer result hmem
      cases result with
      | error error => cases List.mem_singleton.mp hmem
      | ok actions => cases hmem
    cases op with
    | receive sourcePeer message peers nowMs =>
      cases message with
      | inventory id eventKind payloadBytes hopLimit => exact absurd h (hrejection _ _)
      | want id => exact absurd h (hrejection _ _)
      | frame id event => exact InvWantMesh.validFrame_mem_frameEvidence (fun h => nomatch h) h
    | receiveVerifiedFrame sourcePeer id verified peers nowMs =>
      exact InvWantMesh.validFrame_mem_frameEvidence (fun _ => verified.verified) h
    | recordInvalidMessage peerId => cases List.mem_singleton.mp h
    | _ => cases h

theorem unservedInventory_mem_evidence (h : .unservedInventory peer eventId ∈ p.evidence m) :
    (∃ order nowMs, p = .prune order nowMs ∧
      m.HasRoute (fun route => route.fulfilled = false ∧ route.expiresAtMs ≤ nowMs ∧
        peer ∈ route.providers ∧ peer ∉ route.transportDisruptedPeers) eventId) ∧
      eventId ∉ (p.run m).2.upstreamRoutes := by
  cases p with
  | prune order nowMs =>
    obtain ⟨hroute, hgone⟩ := InvWantMesh.unservedInventory_mem_pruneEvidence h
    exact ⟨⟨order, nowMs, rfl, hroute⟩, hgone⟩
  | call op => exact absurd h ((evidence_call op).2 peer eventId)

/-- A phase credits at most one frame. -/
theorem countP_isFrameFor_le (p : Phase nostr) (m : InvWantMesh) (eventId : String) :
    (p.evidence m).countP (Evidence.isFrameFor eventId) ≤ 1 := by
  cases p with
  | prune order nowMs =>
    have hnone : (m.pruneEvidence order nowMs).countP (Evidence.isFrameFor eventId) = 0 := by
      rw [List.countP_eq_zero]
      intro e he
      obtain ⟨_, _, rfl⟩ := eq_unservedInventory_of_mem_pruneEvidence he
      exact Bool.false_ne_true
    exact hnone.le.trans zero_le_one
  | call op => exact List.countP_le_length.trans (evidence_call op).1

end Phase

/-! ## A provider is listed once -/

/-- What the body of `prune` and every elementary change preserve, every phase does. -/
theorem Phase.preserves {nostr : NostrCrate} {I : InvWantMesh → Prop}
    (hprune : ∀ order nowMs m, I m → I (m.pruneExpired order nowMs))
    (hupdate : ∀ nowMs m m', InvWantMesh.Update nostr nowMs m m' → I m → I m')
    (p : Phase nostr) (m : InvWantMesh) (h : I m) : I (p.run m).2 := by
  cases p with
  | prune order nowMs =>
    simp only [run, InvWantMesh.prune]
    split
    · exact h
    · exact hprune order nowMs m h
  | call op =>
    have hpruned : op.pruned (fun _ m => m) m = m := by
      unfold Op.pruned
      split <;> rfl
    have hupdates := Op.apply_updates (fun _ m => m) m op 0
    rw [hpruned] at hupdates
    exact InvWantMesh.Updates.preserves (hupdate _) hupdates h

namespace InvWantMesh

variable {nostr : NostrCrate} {m m' : InvWantMesh} {nowMs : ℕ}

/-- The first provider of a route is none of its alternates. -/
def ProvidersDistinct (m : InvWantMesh) : Prop :=
  ∀ eventId route, m.upstreamRoutes.lookup eventId = some route →
    route.peerId ∉ route.alternatePeers

theorem ProvidersDistinct.of_noNewRoute (h : m.ProvidersDistinct)
    (hnew : NoNewRoute (fun route => route.peerId ∈ route.alternatePeers) m m') :
    m'.ProvidersDistinct := by
  intro eventId route hroute hdouble
  obtain ⟨found, hfound, hfoundDouble⟩ := hnew eventId ⟨route, hroute, hdouble⟩
  exact h eventId found hfound hfoundDouble

/-- A peer becomes an alternate only if it is no provider yet. -/
theorem NoNewRoute.extendRoute_double (m : InvWantMesh) (sourcePeer eventId : String)
    (eventKind payloadBytes hopLimit nowMs : ℕ) :
    NoNewRoute (fun route => route.peerId ∈ route.alternatePeers) m
      (m.extendRoute sourcePeer eventId eventKind payloadBytes hopLimit nowMs).2 := by
  rcases m.extendRoute_cases sourcePeer eventId eventKind payloadBytes hopLimit nowMs with
    ⟨heq, -⟩ | ⟨route, hroute, -, ⟨-, heq⟩ | ⟨-, heq⟩ | ⟨hunknown, -, heq⟩⟩ <;> rw [heq]
  · exact refl m
  · exact of_insert hroute rfl id
  · exact of_insert hroute rfl id
  · refine of_insert hroute rfl fun hdouble => ?_
    rcases Finset.mem_insert.mp hdouble with hsource | hold
    · exact absurd (Finset.mem_insert.mpr (Or.inl hsource.symm)) hunknown
    · exact hold

theorem ProvidersDistinct.update (h : m.ProvidersDistinct) (hupdate : Update nostr nowMs m m') :
    m'.ProvidersDistinct := by
  cases hupdate with
  | behavior peerId delta evidence => exact h
  | stored hevent => exact h
  | seen hfresh => exact h.of_noNewRoute (.rememberInventory _ _ _)
  | @opened sourcePeer eventId eventKind payloadBytes hopLimit hseen =>
    intro id route hroute
    unfold openRoute at hroute
    simp only at hroute
    split at hroute
    · exact h id route hroute
    · rcases Finmap.lookup_insert_eq_some.mp hroute with ⟨rfl, rfl⟩ | ⟨-, hold⟩
      · exact Finset.notMem_empty _
      · exact h id route hold
  | extended hseen => exact h.of_noNewRoute (.extendRoute_double _ _ _ _ _ _ _)
  | waiting hroute hopen => exact h.of_noNewRoute (.of_lookup fun id route hfound => by
      rwa [addPendingPeer_upstreamRoutes] at hfound)
  | forwarded hroute hopen => exact h.of_noNewRoute (.forwardWant (fun _ _ hdouble => hdouble) hroute)
  | @settled eventId route hroute hopen =>
    have hclosed : NoNewRoute (fun route => route.peerId ∈ route.alternatePeers) m
        (m.closeRoute eventId) := .closeRoute (fun _ hdouble => hdouble) m eventId
    obtain ⟨_, _, _, heq⟩ := (m.closeRoute eventId).rememberDelivered_frame eventId nowMs
    rw [settleRoute, heq]
    exact h.of_noNewRoute (hclosed.trans (.of_lookup fun _ _ hfound => hfound))
  | dismissed peerId eventId =>
    unfold dismissFrame
    split
    · exact h.of_noNewRoute (NoNewRoute.closeRoute (fun _ hdouble => hdouble) m eventId)
    · exact h
  | disrupted peerId eventId =>
    exact h.of_noNewRoute (.recordTransportDisruption (fun _ _ hdouble => hdouble) _ _ _)

/-- `prune` charges a provider of a route once. -/
theorem nodup_pruneEvidence (h : m.ProvidersDistinct) (order : RouteOrder) (nowMs : ℕ) :
    (m.pruneEvidence order nowMs).Nodup := by
  unfold pruneEvidence
  split
  · exact List.nodup_nil
  have hkeys : (order.visit m.upstreamRoutes).Pairwise fun a b => a.1 ≠ b.1 := by
    rw [← List.nodupKeys_iff_pairwise, ← Multiset.coe_nodupKeys, order.visit_entries]
    exact m.upstreamRoutes.nodupKeys
  refine List.nodup_flatMap.mpr ⟨?_, (hkeys.filter _).imp fun {a b} hne => ?_⟩
  · rintro ⟨id, route⟩ hentry
    have hroute : m.upstreamRoutes.lookup id = some route :=
      order.mem_visit.mp (List.mem_filter.mp hentry).1
    have hproviders : (route.peerId :: route.alternatePeers.ascending).Nodup := by
      rw [List.nodup_cons, Finset.mem_ascending]
      exact ⟨h id route hroute, route.alternatePeers.nodup_ascending⟩
    refine (hproviders.filter _).map fun first second heq => ?_
    cases heq
    rfl
  · intro e hfirst hsecond
    obtain ⟨_, -, rfl⟩ := List.mem_map.mp hfirst
    obtain ⟨_, -, heq⟩ := List.mem_map.mp hsecond
    obtain ⟨-, hid⟩ := Evidence.unservedInventory.inj heq
    exact hne hid.symm

end InvWantMesh

end NostrPubsub
