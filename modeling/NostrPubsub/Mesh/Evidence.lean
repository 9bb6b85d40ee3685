import NostrPubsub.Mesh.Updates

/-!
# The evidence a call records

`record_peer_behavior` is called in four places: for every unserved provider in `prune`, for the
sender of an accepted frame, for the sender of a rejected message, and in `record_invalid_message`.
`Phase.evidence` lists these calls of a run with the event whose route each of them is on account of,
which the source does not store. `Phase.behaviors_run` says that the list is complete: recording it,
in its order, gives the peer behaviors after the call.

A step of the mesh is two phases, its prune and the rest. Whether a route expires is decided in the
first one, and the second one may open a route for the same event again.
-/

namespace NostrPubsub

/-- One call of `record_peer_behavior`, and the event it is about. -/
inductive Evidence where
  | validFrame (peerId eventId : String)
  | invalidMessage (peerId : String)
  | unservedInventory (peerId eventId : String)
  deriving DecidableEq

namespace InvWantMesh

/-- The call of `record_peer_behavior`. -/
def recordEvidence (m : InvWantMesh) : Evidence → InvWantMesh
  | .validFrame peerId _ => m.recordPeerBehavior peerId validFrameReward .validFrame
  | .invalidMessage peerId => m.recordInvalidMessage peerId
  | .unservedInventory peerId _ =>
    m.recordPeerBehavior peerId unservedInventoryPenalty .unservedInventory

/-- The peer behaviors, in the order of their insertion. -/
def behaviors (m : InvWantMesh) : List String × Table PeerBehavior :=
  (m.peerBehaviorOrder, m.peerBehaviors)

/-- The evidence of `prune`, once its deadline is due. -/
def expiredEvidence (order : RouteOrder) (m : InvWantMesh) (nowMs : ℕ) : List Evidence :=
  ((order.visit m.upstreamRoutes).filter fun entry =>
      !entry.2.fulfilled && decide (entry.2.expiresAtMs ≤ nowMs)).flatMap fun entry =>
    ((entry.2.peerId :: entry.2.alternatePeers.ascending).filter fun peer =>
      decide (peer ∉ entry.2.transportDisruptedPeers)).map fun peer =>
        .unservedInventory peer entry.1

/-- The evidence of `prune`. -/
def pruneEvidence (order : RouteOrder) (m : InvWantMesh) (nowMs : ℕ) : List Evidence :=
  if (nowMs : WithTop ℕ) < m.nextPruneAtMs then [] else m.expiredEvidence order nowMs

/-- The evidence of a message that is answered or rejected. -/
def rejectionEvidence (sourcePeer : String) (result : Except PubsubError (List InvWantAction)) :
    List Evidence :=
  match result with
  | .error _ => [.invalidMessage sourcePeer]
  | .ok _ => []

/-- The evidence of a frame. -/
def frameEvidence (m : InvWantMesh) (nostr : NostrCrate) (sourcePeer eventId : String)
    (event : Event) (verifySignature : Bool) : List Evidence :=
  match m.admitFrame nostr sourcePeer eventId event verifySignature with
  | .error _ => [.invalidMessage sourcePeer]
  | .ok (route, _) => if route.fulfilled then [] else [.validFrame sourcePeer eventId]

end InvWantMesh

/-- The evidence of a call, on a mesh that is pruned. -/
def Op.evidence {nostr : NostrCrate} (m : InvWantMesh) : Op nostr → List Evidence
  | .receive sourcePeer (.inventory eventId eventKind payloadBytes hopLimit) _ nowMs =>
    InvWantMesh.rejectionEvidence sourcePeer
      (m.receiveInventory sourcePeer eventId eventKind payloadBytes hopLimit nowMs).1
  | .receive sourcePeer (.want eventId) _ nowMs =>
    InvWantMesh.rejectionEvidence sourcePeer (m.receiveWant sourcePeer eventId nowMs).1
  | .receive sourcePeer (.frame eventId event) _ _ =>
    m.frameEvidence nostr sourcePeer eventId event true
  | .receiveVerifiedFrame sourcePeer eventId verified _ _ =>
    m.frameEvidence nostr sourcePeer eventId verified.event false
  | .recordInvalidMessage peerId => [.invalidMessage peerId]
  | _ => []

/-! ## Phases -/

/-- A part of a step: its prune, or the call on the pruned mesh. -/
inductive Phase (nostr : NostrCrate) where
  | prune (order : RouteOrder) (nowMs : ℕ)
  | call (op : Op nostr)

/-- The phases of a step. An operation without a clock does not prune. -/
def Step.phases {nostr : NostrCrate} (s : Step nostr) : List (Phase nostr) :=
  (s.clock.toList.map fun nowMs => .prune s.order nowMs) ++ [.call s.op]

namespace Phase

variable {nostr : NostrCrate}

/-- One phase. -/
def run (p : Phase nostr) (m : InvWantMesh) : OpResult × InvWantMesh :=
  match p with
  | .prune order nowMs => (.done, m.prune order nowMs)
  | .call op => op.apply (fun _ m => m) m

/-- The evidence of a phase. -/
def evidence (m : InvWantMesh) : Phase nostr → List Evidence
  | .prune order nowMs => m.pruneEvidence order nowMs
  | .call op => op.evidence m

/-- The evidence of one phase after another. -/
def evidenceOver : InvWantMesh → List (Phase nostr) → List Evidence
  | _, [] => []
  | m, p :: rest => p.evidence m ++ evidenceOver (p.run m).2 rest

theorem evidenceOver_append (m : InvWantMesh) (first second : List (Phase nostr)) :
    evidenceOver m (first ++ second) =
      evidenceOver m first ++ evidenceOver (Mealy.after run m first) second := by
  induction first generalizing m with
  | nil => rfl
  | cons p rest ih =>
    rw [List.cons_append, evidenceOver, evidenceOver, ih, List.append_assoc, Mealy.after_cons]

end Phase

/-- An operation prunes and then works on the pruned mesh. -/
theorem Op.apply_pruned {nostr : NostrCrate} (prune : ℕ → InvWantMesh → InvWantMesh)
    (m : InvWantMesh) (op : Op nostr) :
    op.apply (fun _ m => m) (op.pruned prune m) = op.apply prune m := by
  cases op <;> rfl

/-- The phases of a step lead where the step does. -/
theorem Step.after_phases {nostr : NostrCrate} (s : Step nostr) (m : InvWantMesh) :
    Mealy.after Phase.run m s.phases = (s.run m).2 := by
  have hcall : Mealy.after Phase.run m s.phases =
      (s.op.apply (fun _ m => m) (s.op.pruned (InvWantMesh.prune s.order) m)).2 := by
    rw [Step.phases, Step.clock, Op.pruned]
    cases s.op.clock with
    | none => rfl
    | some nowMs => rfl
  rw [hcall, Op.apply_pruned]
  rfl

/-- The phases of a run. -/
def phasesOf {nostr : NostrCrate} (steps : List (Step nostr)) : List (Phase nostr) :=
  steps.flatMap Step.phases

/-- The phases of a run lead where the run does. -/
theorem after_phasesOf {nostr : NostrCrate} (options : InvWantMeshOptions)
    (steps : List (Step nostr)) :
    Mealy.after Phase.run (InvWantMesh.new options) (phasesOf steps) = meshAfter options steps := by
  induction steps using List.reverseRecOn with
  | nil => rfl
  | append_singleton steps next ih =>
    rw [phasesOf, List.flatMap_append, List.flatMap_singleton, ← phasesOf, Mealy.after_append, ih,
      Step.after_phases, meshAfter_concat]

/-! ## The list of evidence is complete -/

namespace InvWantMesh

variable {nostr : NostrCrate} {m m' : InvWantMesh}

/-- What recording does to the behaviors depends on them only. -/
theorem behaviors_recordPeerBehavior (h : m.behaviors = m'.behaviors) (peerId : String)
    (delta : ℤ) (evidence : PeerBehaviorEvidence) :
    (m.recordPeerBehavior peerId delta evidence).behaviors =
      (m'.recordPeerBehavior peerId delta evidence).behaviors := by
  have horder : m.peerBehaviorOrder = m'.peerBehaviorOrder := congrArg Prod.fst h
  have htable : m.peerBehaviors = m'.peerBehaviors := congrArg Prod.snd h
  simp only [behaviors, recordPeerBehavior, horder, htable]

theorem RoutesOnly.behaviors_eq (h : RoutesOnly m m') : m'.behaviors = m.behaviors := by
  obtain ⟨_, _, _, _, _, _, _, rfl⟩ := h
  rfl

/-- The evidence of `prune` names the unserved providers, in their order. -/
theorem foldl_expiredEvidence (m₀ : InvWantMesh) (order : RouteOrder) (nowMs : ℕ) :
    (m.expiredEvidence order nowMs).foldl recordEvidence m₀ =
      m₀.recordUnserved (m.expiredProviders order nowMs) := by
  have hmap : m.expiredProviders order nowMs =
      (m.expiredEvidence order nowMs).map fun
        | .validFrame peerId _ => peerId
        | .invalidMessage peerId => peerId
        | .unservedInventory peerId _ => peerId := by
    simp [expiredProviders, expiredEvidence, List.map_flatMap, Function.comp_def]
  have hunserved : ∀ e ∈ m.expiredEvidence order nowMs,
      ∃ peer eventId, e = .unservedInventory peer eventId := by
    intro e he
    obtain ⟨entry, -, he⟩ := List.mem_flatMap.mp he
    obtain ⟨peer, -, rfl⟩ := List.mem_map.mp he
    exact ⟨peer, entry.1, rfl⟩
  rw [hmap, recordUnserved, List.foldl_map]
  refine List.foldl_ext _ _ m₀ fun m₁ e he => ?_
  obtain ⟨peer, eventId, rfl⟩ := hunserved e he
  rfl

theorem behaviors_prune (m : InvWantMesh) (order : RouteOrder) (nowMs : ℕ) :
    (m.prune order nowMs).behaviors =
      ((m.pruneEvidence order nowMs).foldl recordEvidence m).behaviors := by
  unfold prune pruneEvidence
  split
  · rfl
  · rw [foldl_expiredEvidence]
    rfl

theorem behaviors_recordRejection {sourcePeer : String}
    {result : Except PubsubError (List InvWantAction) × InvWantMesh}
    (h : result.2.behaviors = m.behaviors) :
    (recordRejection sourcePeer result).2.behaviors =
      ((rejectionEvidence sourcePeer result.1).foldl recordEvidence m).behaviors := by
  obtain ⟨error | actions, after⟩ := result
  · exact behaviors_recordPeerBehavior h _ _ _
  · exact h

theorem behaviors_acceptFrame (m : InvWantMesh) (route : UpstreamRoute)
    (sourcePeer eventId : String) (event : Event) (payloadBytes : ℕ) (peers : List MeshPeer)
    (nowMs : ℕ) :
    (m.acceptFrame route sourcePeer eventId event payloadBytes peers nowMs).2.behaviors =
      (m.recordPeerBehavior sourcePeer validFrameReward .validFrame).behaviors := by
  obtain ⟨_, _, _, hremember⟩ := (((m.recordPeerBehavior sourcePeer validFrameReward
    .validFrame).storeEvent event payloadBytes nowMs).closeRoute eventId).rememberDelivered_frame
      eventId nowMs
  simp only [acceptFrame]
  rw [hremember]
  rfl

theorem behaviors_receiveFrame {sourcePeer eventId : String} {event : Event}
    {peers : List MeshPeer} {nowMs : ℕ} {verifySignature : Bool} :
    (recordRejection sourcePeer
      (m.receiveFrame nostr sourcePeer eventId event peers nowMs verifySignature)).2.behaviors =
      ((m.frameEvidence nostr sourcePeer eventId event verifySignature).foldl recordEvidence
        m).behaviors := by
  unfold receiveFrame frameEvidence
  cases m.admitFrame nostr sourcePeer eventId event verifySignature with
  | error error => rfl
  | ok admitted =>
    simp only
    split
    · rfl
    · exact m.behaviors_acceptFrame admitted.1 sourcePeer eventId event admitted.2 peers nowMs

theorem RoutesOnly.receiveWant (m : InvWantMesh) (sourcePeer eventId : String) (nowMs : ℕ) :
    RoutesOnly m (m.receiveWant sourcePeer eventId nowMs).2 := by
  unfold InvWantMesh.receiveWant
  split
  · exact refl m
  split
  · exact refl m
  split
  · exact refl m
  split
  · exact refl m
  have hwait := RoutesOnly.addPendingPeer m sourcePeer eventId nowMs
  simp only
  split
  · exact hwait
  · exact hwait.trans (.forwardWant _ _ _)

theorem behaviors_withValidated {validated : Except PubsubError (String × ℕ)}
    {continue_ : String → ℕ → InvWantMesh → List InvWantAction × InvWantMesh}
    (h : ∀ eventId payloadBytes,
      (continue_ eventId payloadBytes m).2.behaviors = m.behaviors) :
    (withValidated validated continue_ m).2.behaviors = m.behaviors := by
  unfold withValidated
  split
  · rfl
  · exact h _ _

theorem behaviors_publishValidated {event : Event} {eventId : String} {payloadBytes nowMs : ℕ}
    {peers : List MeshPeer} :
    (publishValidated event eventId payloadBytes peers nowMs m).2.behaviors = m.behaviors := by
  rw [publishValidated_snd]
  exact (RoutesOnly.rememberInventory (m.storeEvent event payloadBytes nowMs) eventId
    nowMs).behaviors_eq

theorem behaviors_replayValidated {event : Event} {eventId peerId : String}
    {payloadBytes nowMs : ℕ} :
    (replayValidated event eventId payloadBytes peerId nowMs m).2.behaviors = m.behaviors :=
  rfl

end InvWantMesh

open InvWantMesh in
/-- The behaviors after a call are those before it with its evidence recorded. -/
theorem Op.behaviors_apply {nostr : NostrCrate} (m : InvWantMesh) (op : Op nostr) :
    (op.apply (fun _ m => m) m).2.behaviors =
      ((op.evidence m).foldl recordEvidence m).behaviors := by
  cases op with
  | publish event peers t =>
    exact behaviors_withValidated fun _ _ => behaviors_publishValidated
  | publishVerified verified peers t =>
    exact behaviors_withValidated fun _ _ => behaviors_publishValidated
  | replayToPeer event peerId t =>
    exact behaviors_withValidated fun _ _ => behaviors_replayValidated
  | replayVerifiedToPeer verified peerId t =>
    exact behaviors_withValidated fun _ _ => behaviors_replayValidated
  | replayCachedToPeer peerId t => rfl
  | seedVerified verified t =>
    simp only [apply, InvWantMesh.seedVerified]
    split <;> rfl
  | receive sourcePeer message peers t =>
    cases message with
    | inventory eventId eventKind payloadBytes hopLimit =>
      exact behaviors_recordRejection (RoutesOnly.receiveInventory m sourcePeer eventId eventKind
        payloadBytes hopLimit t).behaviors_eq
    | want eventId =>
      exact behaviors_recordRejection (RoutesOnly.receiveWant m sourcePeer eventId t).behaviors_eq
    | frame eventId event => exact behaviors_receiveFrame
  | receiveVerifiedFrame sourcePeer eventId verified peers t => exact behaviors_receiveFrame
  | dismissFrame peerId eventId => exact (RoutesOnly.dismissFrame m peerId eventId).behaviors_eq
  | recordInvalidMessage peerId => rfl
  | recordTransportDisruption peerId eventId =>
    exact (RoutesOnly.recordTransportDisruption m peerId eventId).behaviors_eq
  | maintain t => rfl

/-- The behaviors after a phase are those before it with its evidence recorded. -/
theorem Phase.behaviors_run {nostr : NostrCrate} (p : Phase nostr) (m : InvWantMesh) :
    (p.run m).2.behaviors =
      ((p.evidence m).foldl InvWantMesh.recordEvidence m).behaviors := by
  cases p with
  | prune order nowMs => exact m.behaviors_prune order nowMs
  | call op => exact op.behaviors_apply m

end NostrPubsub
