import NostrPubsub.Mesh.Run

/-!
# Rejected messages

The operations of the mesh check before they change anything. A message that `receive` or
`receive_verified_frame` rejects leaves the pruned mesh with one more invalid message against its
sender, and an event that the other operations reject leaves the pruned mesh (`rejection_leaves_mesh`).

The one error that comes after a step that can change the mesh is that of a retried inventory with
another kind or size. It is only raised for an id that was seen before, and then `remember_inventory`
has changed nothing.
-/

namespace NostrPubsub.InvWantMesh

variable {nostr : NostrCrate} {m : InvWantMesh} {error : PubsubError}

theorem extendRoute_of_error {sourcePeer eventId : String}
    {eventKind payloadBytes hopLimit nowMs : ℕ}
    (h : (m.extendRoute sourcePeer eventId eventKind payloadBytes hopLimit nowMs).1 = .error error) :
    (m.extendRoute sourcePeer eventId eventKind payloadBytes hopLimit nowMs).2 = m := by
  unfold extendRoute at h ⊢
  split
  · rfl
  · next route hroute =>
    simp only [hroute] at h ⊢
    split
    · rfl
    · next hopen =>
      rw [if_neg hopen] at h
      split
      · rfl
      · next hsame =>
        -- from here on the inventory is accepted
        rw [if_neg hsame] at h
        split at h
        · cases h
        · split at h <;> cases h

theorem receiveInventory_of_error {sourcePeer eventId : String}
    {eventKind payloadBytes hopLimit nowMs : ℕ}
    (h : (m.receiveInventory sourcePeer eventId eventKind payloadBytes hopLimit nowMs).1
      = .error error) :
    (m.receiveInventory sourcePeer eventId eventKind payloadBytes hopLimit nowMs).2 = m := by
  unfold receiveInventory at h ⊢
  simp only at h ⊢
  split
  · rfl
  · next hchecked =>
    simp only [hchecked] at h
    split
    · rfl
    · next hhops =>
      rw [if_neg hhops] at h
      split
      · rfl
      · next hmax =>
        rw [if_neg hmax] at h
        split
        · rfl
        · next hcached =>
          rw [if_neg hcached] at h
          by_cases hseen : m.isSeen eventId nowMs = true
          · have hremember : m.rememberInventory eventId nowMs = (false, m) := by
              rw [rememberInventory, if_pos hseen]
            simp only [hremember] at h ⊢
            exact extendRoute_of_error h
          · -- an id that was not seen is asked for
            have hremember : (m.rememberInventory eventId nowMs).1 = true := by
              rw [rememberInventory, if_neg hseen]
            split at h
            · next heq =>
              rw [heq] at hremember
              cases hremember
            · cases h

theorem receiveWant_of_error {sourcePeer eventId : String} {nowMs : ℕ}
    (h : (m.receiveWant sourcePeer eventId nowMs).1 = .error error) :
    (m.receiveWant sourcePeer eventId nowMs).2 = m := by
  unfold receiveWant at h ⊢
  split
  · rfl
  · next hvalid =>
    simp only [hvalid] at h
    split at h
    · cases h
    · split at h
      · cases h
      · split at h
        · cases h
        · split at h <;> cases h

theorem receiveFrame_of_error {sourcePeer eventId : String} {event : Event} {peers : List MeshPeer}
    {nowMs : ℕ} {verifySignature : Bool}
    (h : (m.receiveFrame nostr sourcePeer eventId event peers nowMs verifySignature).1
      = .error error) :
    (m.receiveFrame nostr sourcePeer eventId event peers nowMs verifySignature).2 = m := by
  unfold receiveFrame at h ⊢
  split
  · rfl
  · next hadmitted =>
    simp only [hadmitted] at h
    split at h <;> cases h

theorem dispatch_of_error {sourcePeer : String} {message : InvWantWireMessage}
    {peers : List MeshPeer} {nowMs : ℕ}
    (h : (m.dispatch nostr sourcePeer message peers nowMs).1 = .error error) :
    (m.dispatch nostr sourcePeer message peers nowMs).2 = m := by
  cases message with
  | inventory eventId eventKind payloadBytes hopLimit => exact receiveInventory_of_error h
  | want eventId => exact receiveWant_of_error h
  | frame eventId event => exact receiveFrame_of_error h

theorem recordRejection_of_error {sourcePeer : String}
    {result : Except PubsubError (List InvWantAction) × InvWantMesh}
    (hresult : ∀ error, result.1 = .error error → result.2 = m)
    (h : (recordRejection sourcePeer result).1 = .error error) :
    (recordRejection sourcePeer result).2 = m.recordInvalidMessage sourcePeer := by
  obtain ⟨returned, after⟩ := result
  cases returned with
  | error first =>
    have hafter : after = m := hresult first rfl
    rw [recordRejection, hafter]
  | ok actions => cases h

theorem withValidated_of_error {validated : Except PubsubError (String × ℕ)}
    {continue_ : String → ℕ → InvWantMesh → List InvWantAction × InvWantMesh}
    (h : (withValidated validated continue_ m).1 = .error error) :
    (withValidated validated continue_ m).2 = m := by
  cases validated with
  | error first => rfl
  | ok valid => cases h

theorem seedVerified_of_error {prune : ℕ → InvWantMesh → InvWantMesh}
    {verified : VerifiedEvent nostr} {nowMs : ℕ}
    (h : (m.seedVerified prune nostr verified nowMs).1 = .error error) :
    (m.seedVerified prune nostr verified nowMs).2 = prune nowMs m := by
  unfold seedVerified at h ⊢
  simp only at h ⊢
  split
  · rfl
  · next hvalidated =>
    rw [hvalidated] at h
    cases h

/-- A rejected message or frame leaves the pruned mesh with one more invalid message against its
sender; an event that is rejected on its way out leaves the pruned mesh. -/
theorem rejection_leaves_mesh (nostr : NostrCrate) (order : RouteOrder) (m : InvWantMesh)
    (nowMs : ℕ) (error : PubsubError) :
    (∀ sourcePeer message peers,
      (m.receive (prune order) nostr sourcePeer message peers nowMs).1 = .error error →
      (m.receive (prune order) nostr sourcePeer message peers nowMs).2 =
        (m.prune order nowMs).recordInvalidMessage sourcePeer) ∧
    (∀ sourcePeer eventId verified peers,
      (m.receiveVerifiedFrame (prune order) nostr sourcePeer eventId verified peers nowMs).1
        = .error error →
      (m.receiveVerifiedFrame (prune order) nostr sourcePeer eventId verified peers nowMs).2 =
        (m.prune order nowMs).recordInvalidMessage sourcePeer) ∧
    (∀ event peers, (m.publish (prune order) nostr event peers nowMs).1 = .error error →
      (m.publish (prune order) nostr event peers nowMs).2 = m.prune order nowMs) ∧
    (∀ verified peers, (m.publishVerified (prune order) nostr verified peers nowMs).1 = .error error →
      (m.publishVerified (prune order) nostr verified peers nowMs).2 = m.prune order nowMs) ∧
    (∀ event peerId, (m.replayToPeer (prune order) nostr event peerId nowMs).1 = .error error →
      (m.replayToPeer (prune order) nostr event peerId nowMs).2 = m.prune order nowMs) ∧
    (∀ verified peerId,
      (m.replayVerifiedToPeer (prune order) nostr verified peerId nowMs).1 = .error error →
      (m.replayVerifiedToPeer (prune order) nostr verified peerId nowMs).2 = m.prune order nowMs) ∧
    (∀ verified, (m.seedVerified (prune order) nostr verified nowMs).1 = .error error →
      (m.seedVerified (prune order) nostr verified nowMs).2 = m.prune order nowMs) := by
  refine ⟨?_, ?_, ?_, ?_, ?_, ?_, ?_⟩
  · intro sourcePeer message peers h
    exact recordRejection_of_error (fun _ hdispatch => dispatch_of_error hdispatch) h
  · intro sourcePeer eventId verified peers h
    exact recordRejection_of_error (fun _ hframe => receiveFrame_of_error hframe) h
  · intro event peers h
    exact withValidated_of_error h
  · intro verified peers h
    exact withValidated_of_error h
  · intro event peerId h
    exact withValidated_of_error h
  · intro verified peerId h
    exact withValidated_of_error h
  · intro verified h
    exact seedVerified_of_error h

/-- A mesh that has asked `p` for a note and keeps it for `w`. -/
def expectingNote : InvWantMesh :=
  meshAfter {} [noteAnnounced 10, .ascending (.receive "w" (.want noteA.id.toHex) [] 15)]

/-- A frame from a peer that was not asked is held against it. The route to `p` and the waiting peer
stay. -/
theorem rejection_leaves_mesh_unrequested :
    (expectingNote.receive (prune (.ascending _)) noteCrate "x" (.frame noteA.id.toHex noteA) []
      20).1 = .error (.validation "inv/want frame was not requested from source") ∧
    (expectingNote.receive (prune (.ascending _)) noteCrate "x" (.frame noteA.id.toHex noteA) []
      20).2 = (expectingNote.prune (.ascending _) 20).recordInvalidMessage "x" ∧
    noteA.id.toHex ∈ (expectingNote.prune (.ascending _) 20).upstreamRoutes ∧
    noteA.id.toHex ∈ (expectingNote.prune (.ascending _) 20).pendingDownstream := by
  have hrejected : (expectingNote.receive (prune (.ascending _)) noteCrate "x"
      (.frame noteA.id.toHex noteA) [] 20).1 =
        .error (.validation "inv/want frame was not requested from source") := by decide +kernel
  exact ⟨hrejected, (rejection_leaves_mesh noteCrate (.ascending _) expectingNote 20
    (.validation "inv/want frame was not requested from source")).1 "x" _ [] hrejected,
    by decide +kernel, by decide +kernel⟩

end NostrPubsub.InvWantMesh
