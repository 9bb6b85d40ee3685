import NostrPubsub.Mesh.Accounting
import NostrPubsub.Mesh.TopPeers

/-!
# Local publication of an announced event

`publish` puts the event into the cache and then asks `remember_inventory` whether its id is new. An
inventory from a peer makes an id seen as well, so that a peer that announces an event without
serving it keeps the mesh from announcing its own publication of it. The peers that wait for the
event are not served either, although `receive_frame` serves them when a frame brings the event
(`publish_announces_iff`).
-/

namespace NostrPubsub

namespace InvWantMesh

variable {nostr : NostrCrate} {m : InvWantMesh} {event : Event} {payloadBytes nowMs : ℕ}
  {peers : List MeshPeer}

/-- What a publication on a pruned mesh should return: the inventory for every selected peer, and the
event for every peer that waits for it. -/
def Announces (m : InvWantMesh) (event : Event) (payloadBytes : ℕ) (peers : List MeshPeer)
    (result : Except PubsubError (List InvWantAction)) : Prop :=
  ∃ actions, result = .ok actions ∧
    (∀ peer ∈ selectMeshPeers (m.peersWithBehavior peers) none m.options.fanout
        m.options.unknownPeerReserve,
      .send peer.id (.inventory event.id.toHex event.kind payloadBytes m.options.maxHops) ∈
        actions) ∧
    ∀ pending, m.pendingDownstream.lookup event.id.toHex = some pending →
      ∀ peer ∈ pending.peers, .send peer (.frame event.id.toHex event) ∈ actions

/-- The id of an event is not seen, and nobody waits for it. -/
def Unheard (m : InvWantMesh) (eventId : String) (nowMs : ℕ) : Prop :=
  m.isSeen eventId nowMs = false ∧
    ∀ pending, m.pendingDownstream.lookup eventId = some pending → pending.peers = ∅

/-- Some peer is selected from a list with a peer. -/
theorem exists_selected (hfanout : 0 < m.options.fanout) (hpeers : peers ≠ []) :
    ∃ peer, peer ∈ selectMeshPeers (m.peersWithBehavior peers) none m.options.fanout
      m.options.unknownPeerReserve := by
  obtain ⟨first, hfirst⟩ := List.exists_mem_of_ne_nil peers hpeers
  have hid : first.id ∈ candidateIds (m.peersWithBehavior peers) none := by
    rw [candidateIds, Finset.mem_filter, List.mem_toFinset, m.map_id_peersWithBehavior]
    exact ⟨List.mem_map_of_mem hfirst, (Option.some_ne_none _).symm⟩
  have hlength := (isConstrainedTop_selectMeshPeers (m.peersWithBehavior peers) none
    m.options.fanout m.options.unknownPeerReserve).length
  have hcard : 0 < (candidateIds (m.peersWithBehavior peers) none).card :=
    Finset.card_pos.mpr ⟨first.id, hid⟩
  refine List.exists_mem_of_length_pos ?_
  rw [hlength]
  exact lt_min hfanout hcard

/-- Storing an event and remembering its id change nothing that the selection looks at. -/
theorem peersWithBehavior_rememberInventory (eventId : String) :
    ((m.storeEvent event payloadBytes nowMs).rememberInventory eventId nowMs).2.peersWithBehavior
      peers = m.peersWithBehavior peers := by
  obtain ⟨_, _, _, _, _, _, _, heq⟩ :=
    RoutesOnly.rememberInventory (m.storeEvent event payloadBytes nowMs) eventId nowMs
  rw [heq]
  rfl

theorem options_rememberInventory (eventId : String) :
    ((m.storeEvent event payloadBytes nowMs).rememberInventory eventId nowMs).2.options =
      m.options :=
  (RoutesOnly.rememberInventory _ eventId nowMs).options_eq

/-- A publication of a seen id returns nothing. -/
theorem publishValidated_of_seen (h : m.isSeen event.id.toHex nowMs = true) :
    (publishValidated event event.id.toHex payloadBytes peers nowMs m).1 = [] := by
  have hstored : (m.storeEvent event payloadBytes nowMs).isSeen event.id.toHex nowMs = true := h
  rw [publishValidated]
  simp only [rememberInventory_of_seen hstored]

theorem publishValidated_of_not_seen (h : m.isSeen event.id.toHex nowMs = false) :
    (publishValidated event event.id.toHex payloadBytes peers nowMs m).1 =
      (selectMeshPeers (m.peersWithBehavior peers) none m.options.fanout
        m.options.unknownPeerReserve).map fun peer =>
          .send peer.id (.inventory event.id.toHex event.kind payloadBytes m.options.maxHops) := by
  have hstored : (m.storeEvent event payloadBytes nowMs).isSeen event.id.toHex nowMs = false := h
  have hsplit : (m.storeEvent event payloadBytes nowMs).rememberInventory event.id.toHex nowMs =
      (true, ((m.storeEvent event payloadBytes nowMs).rememberInventory event.id.toHex nowMs).2) :=
    Prod.ext (rememberInventory_of_not_seen hstored).1 rfl
  rw [publishValidated, hsplit]
  simp only [sendToSelectedPeers]
  rw [peersWithBehavior_rememberInventory, options_rememberInventory]

theorem fst_withValidated {validated : Except PubsubError (String × ℕ)} {eventId : String}
    {continue_ : String → ℕ → InvWantMesh → List InvWantAction × InvWantMesh}
    (h : validated = .ok (eventId, payloadBytes)) :
    (withValidated validated continue_ m).1 = .ok (continue_ eventId payloadBytes m).1 := by
  rw [h]
  rfl

theorem publishValidated_announces_iff (hfanout : 0 < m.options.fanout) (hpeers : peers ≠ []) :
    Announces m event payloadBytes peers
        (.ok (publishValidated event event.id.toHex payloadBytes peers nowMs m).1) ↔
      Unheard m event.id.toHex nowMs := by
  constructor
  · rintro ⟨actions, hactions, hinventories, hframes⟩
    cases hactions
    cases hseen : m.isSeen event.id.toHex nowMs with
    | true =>
      obtain ⟨peer, hpeer⟩ := exists_selected hfanout hpeers
      have hsent := hinventories peer hpeer
      rw [publishValidated_of_seen hseen] at hsent
      cases hsent
    | false =>
      refine ⟨hseen, fun pending hpending => ?_⟩
      -- only inventories are returned
      refine Finset.eq_empty_of_forall_notMem fun peer hpeer => ?_
      have hsent := hframes pending hpending peer hpeer
      rw [publishValidated_of_not_seen hseen] at hsent
      obtain ⟨selected, -, heq⟩ := List.mem_map.mp hsent
      cases heq
  · rintro ⟨hseen, hnobody⟩
    refine ⟨_, rfl, fun peer hpeer => ?_, fun pending hpending peer hpeer => ?_⟩
    · rw [publishValidated_of_not_seen hseen]
      exact List.mem_map.mpr ⟨peer, hpeer, rfl⟩
    · rw [hnobody pending hpending] at hpeer
      exact absurd hpeer (Finset.notMem_empty peer)

end InvWantMesh

/-- In every reachable mesh a publication of an admissible event is announced to the selected peers,
and handed to the peers that wait for it, exactly if the id of the event is not seen and nobody waits
for it. -/
theorem publish_announces_iff {nostr : NostrCrate} (options : InvWantMeshOptions)
    (steps : List (Step nostr)) (order : RouteOrder) (verified : VerifiedEvent nostr)
    {payloadBytes : ℕ}
    (hevent : Admissible nostr options.normalize verified.event payloadBytes)
    (peers : List MeshPeer) (hpeers : peers ≠ []) (nowMs : ℕ) :
    let pruned := (meshAfter options steps).prune order nowMs
    (pruned.Announces verified.event payloadBytes peers
        ((meshAfter options steps).publish (InvWantMesh.prune order) nostr verified.event peers
          nowMs).1 ↔
      pruned.Unheard verified.event.id.toHex nowMs) ∧
    (pruned.Announces verified.event payloadBytes peers
        ((meshAfter options steps).publishVerified (InvWantMesh.prune order) nostr verified peers
          nowMs).1 ↔
      pruned.Unheard verified.event.id.toHex nowMs) := by
  intro pruned
  have hoptions : pruned.options = options.normalize := by
    rw [InvWantMesh.prune_options, meshAfter_options]
  have hfanout : 0 < pruned.options.fanout := by
    rw [hoptions]
    exact Nat.lt_of_lt_of_le Nat.zero_lt_one (Nat.le_max_right _ _)
  have hvalid : pruned.options.validateVerifiedEvent nostr verified.event =
      .ok (verified.event.id.toHex, payloadBytes) := by
    rw [hoptions]
    exact hevent.2
  have hsigned : pruned.options.validateEvent nostr verified.event =
      .ok (verified.event.id.toHex, payloadBytes) := by
    rw [InvWantMeshOptions.validateEvent, hevent.1]
    exact hvalid
  constructor
  · rw [InvWantMesh.publish, InvWantMesh.fst_withValidated hsigned]
    exact InvWantMesh.publishValidated_announces_iff hfanout hpeers
  · rw [InvWantMesh.publishVerified, InvWantMesh.fst_withValidated hvalid]
    exact InvWantMesh.publishValidated_announces_iff hfanout hpeers

/-- A run in which a peer announces a note and another one asks for it. -/
def awaitedNote : List (Step noteCrate) :=
  [noteAnnounced 10, .ascending (.receive "w" (.want noteA.id.toHex) [] 15)]

/-- The local publication of the note is not announced, and the waiting peer does not get it. -/
theorem publish_suppressed_by_inventory :
    Admissible noteCrate ({} : InvWantMeshOptions).normalize verifiedA.event 334 ∧
      ((meshAfter {} awaitedNote).publish (InvWantMesh.prune (.ascending _)) noteCrate noteA
        [MeshPeer.new "q"] 20).1 = .ok [] ∧
      ¬((meshAfter {} awaitedNote).prune (.ascending _) 20).Announces noteA 334 [MeshPeer.new "q"]
        ((meshAfter {} awaitedNote).publish (InvWantMesh.prune (.ascending _)) noteCrate noteA
          [MeshPeer.new "q"] 20).1 := by
  have hresult : ((meshAfter {} awaitedNote).publish (InvWantMesh.prune (.ascending _)) noteCrate
      noteA [MeshPeer.new "q"] 20).1 = .ok [] := by decide +kernel
  have hselected : MeshPeer.new "q" ∈ selectMeshPeers
      (((meshAfter {} awaitedNote).prune (.ascending _) 20).peersWithBehavior [MeshPeer.new "q"])
      none ((meshAfter {} awaitedNote).prune (.ascending _) 20).options.fanout
      ((meshAfter {} awaitedNote).prune (.ascending _) 20).options.unknownPeerReserve := by
    decide +kernel
  refine ⟨⟨by decide +kernel, by decide +kernel⟩, hresult, ?_⟩
  rintro ⟨actions, hactions, hinventories, -⟩
  rw [hresult] at hactions
  cases hactions
  cases hinventories _ hselected

/-- Once the inventory is over, the note is announced. -/
theorem publish_announces_note :
    ((meshAfter {} awaitedNote).prune (.ascending _) 200000).Announces noteA 334 [MeshPeer.new "q"]
      ((meshAfter {} awaitedNote).publish (InvWantMesh.prune (.ascending _)) noteCrate noteA
        [MeshPeer.new "q"] 200000).1 := by
  have hevent : Admissible noteCrate ({} : InvWantMeshOptions).normalize verifiedA.event 334 :=
    ⟨by decide +kernel, by decide +kernel⟩
  refine (publish_announces_iff {} awaitedNote (.ascending _) verifiedA hevent [MeshPeer.new "q"]
    (List.cons_ne_nil _ _) 200000).1.mpr ⟨by decide +kernel, fun pending hpending => ?_⟩
  have hnone : ((meshAfter {} awaitedNote).prune (.ascending _) 200000).pendingDownstream.lookup
      noteA.id.toHex = none := by decide +kernel
  exact absurd (hpending.symm.trans hnone) nofun

end NostrPubsub
