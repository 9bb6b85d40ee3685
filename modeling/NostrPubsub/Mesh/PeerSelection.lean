import Mathlib.Data.Prod.Lex
import Mathlib.Data.String.Basic
import NostrPubsub.Mesh.Defs

/-!
# Choosing the peers that are told about an event

`select_mesh_peers` ranks the connected peers by score and keeps room for unknown ones;
`peers_with_behavior` folds the mesh's own observations into the scores first. Whatever is
selected, `sendToSelectedPeers` only sends the one message it was given.
-/

namespace NostrPubsub

/-- The `deduplicated` map of `select_mesh_peers`: the first entry given for an id, unless it
has no score and a later one has. -/
def deduplicatePeers (peers : List MeshPeer) (excludedPeer : Option String) : Table MeshPeer :=
  (peers.filter fun peer => excludedPeer ≠ some peer.id).foldl
    (fun deduplicated peer =>
      match deduplicated.lookup peer.id with
      | some existing =>
        if existing.qualityScore.isNone && peer.qualityScore.isSome then
          deduplicated.insert peer.id peer
        else deduplicated
      | none => deduplicated.insert peer.id peer)
    ∅

/-- The sort key of a candidate: higher score first, then known before unknown, then id. -/
def MeshPeer.rank (peer : MeshPeer) : ℤ ×ₗ Bool ×ₗ String :=
  toLex (-peer.effectiveScore, toLex (peer.isUnknown, peer.id))

/-- `selected.iter().rposition(|peer| !peer.is_unknown())`. -/
def lastKnownIndex (selected : List MeshPeer) : Option ℕ :=
  (selected.reverse.findIdx? fun peer => !peer.isUnknown).map fun i => selected.length - 1 - i

/-- The loop of `select_mesh_peers` that replaces the last known peers by the given unknown
ones until `required` of them are selected. -/
def reserveUnknown (required : ℕ) : List MeshPeer → List MeshPeer → List MeshPeer
  | [], selected => selected
  | replacement :: rest, selected =>
    if selected.countP MeshPeer.isUnknown < required then
      match lastKnownIndex selected with
      | some index => reserveUnknown required rest (selected.set index replacement)
      | none => selected
    else selected

/-- `select_mesh_peers`. -/
def selectMeshPeers (peers : List MeshPeer) (excludedPeer : Option String)
    (fanout unknownPeerReserve : ℕ) : List MeshPeer :=
  let deduplicated := deduplicatePeers peers excludedPeer
  let candidates :=
    (deduplicated.keys.ascending.filterMap fun id => deduplicated.lookup id).insertionSort
      fun left right => left.rank ≤ right.rank
  if candidates.length ≤ fanout then candidates
  else
    let target := min fanout candidates.length
    let requiredUnknown :=
      min (min unknownPeerReserve target) (candidates.countP MeshPeer.isUnknown)
    reserveUnknown requiredUnknown
      ((candidates.drop target).filter MeshPeer.isUnknown) (candidates.take target)

/-! ### What is selected -/

/-- One step of `deduplicatePeers` enters the peer under its own id, or nothing. -/
theorem lookup_deduplicatePeers {peers : List MeshPeer} {excludedPeer : Option String}
    {id : String} {peer : MeshPeer}
    (h : (deduplicatePeers peers excludedPeer).lookup id = some peer) :
    peer.id = id ∧ peer ∈ peers ∧ excludedPeer ≠ some id := by
  have hfold : ∀ (rest : List MeshPeer) (table : Table MeshPeer),
      (∀ id peer, table.lookup id = some peer →
        peer.id = id ∧ peer ∈ peers ∧ excludedPeer ≠ some id) →
      (∀ peer ∈ rest, peer ∈ peers ∧ excludedPeer ≠ some peer.id) →
      ∀ id peer, (rest.foldl
        (fun deduplicated peer =>
          match deduplicated.lookup peer.id with
          | some existing =>
            if existing.qualityScore.isNone && peer.qualityScore.isSome then
              deduplicated.insert peer.id peer
            else deduplicated
          | none => deduplicated.insert peer.id peer) table).lookup id = some peer →
        peer.id = id ∧ peer ∈ peers ∧ excludedPeer ≠ some id := by
    intro rest
    induction rest with
    | nil =>
      intro table htable _ id peer hlookup
      exact htable id peer hlookup
    | cons next rest ih =>
      intro table htable hrest
      have hinsert : ∀ id peer, (table.insert next.id next).lookup id = some peer →
          peer.id = id ∧ peer ∈ peers ∧ excludedPeer ≠ some id := by
        intro id peer hlookup
        rcases Finmap.lookup_insert_eq_some.mp hlookup with ⟨rfl, rfl⟩ | ⟨_, hold⟩
        · exact ⟨rfl, hrest next List.mem_cons_self⟩
        · exact htable id peer hold
      refine ih _ ?_ fun peer hmem => hrest peer (List.mem_cons_of_mem _ hmem)
      dsimp only
      split
      · split
        · exact hinsert
        · exact htable
      · exact hinsert
  refine hfold _ ∅ (fun id peer h => ?_) (fun peer hmem => ?_) id peer h
  · simp at h
  · exact ⟨List.mem_of_mem_filter hmem, by simpa using (List.mem_filter.mp hmem).2⟩

/-- Replacing known peers by unknown ones keeps the number of peers, keeps their ids distinct,
and brings in no others. -/
theorem reserveUnknown_spec (required : ℕ) : ∀ (rest selected : List MeshPeer),
    ((selected ++ rest).map MeshPeer.id).Nodup →
      (reserveUnknown required rest selected).length = selected.length ∧
      ((reserveUnknown required rest selected).map MeshPeer.id).Nodup ∧
      ∀ peer ∈ reserveUnknown required rest selected, peer ∈ selected ++ rest := by
  intro rest
  induction rest with
  | nil =>
    intro selected hnodup
    rw [List.append_nil] at hnodup ⊢
    exact ⟨rfl, hnodup, fun peer h => h⟩
  | cons replacement rest ih =>
    intro selected hnodup
    have hself : (selected.map MeshPeer.id).Nodup ∧
        ∀ peer ∈ selected, peer ∈ selected ++ replacement :: rest :=
      ⟨(List.nodup_append.mp (List.map_append ▸ hnodup)).1,
        fun peer h => List.mem_append_left _ h⟩
    rw [reserveUnknown]
    split
    · split
      · next index hindex =>
        -- the ids of the chosen, the replacement and the rest stay distinct
        have hset : ((selected.set index replacement ++ rest).map MeshPeer.id).Nodup := by
          rw [List.map_append, List.map_cons, List.nodup_append] at hnodup
          rw [List.map_append, List.map_set, List.nodup_append]
          obtain ⟨hselected, hrest, hdisjoint⟩ := hnodup
          refine ⟨hselected.set ?_, hrest.of_cons, ?_⟩
          · exact fun hmem => hdisjoint _ hmem _ List.mem_cons_self rfl
          · intro a ha b hb
            rcases List.mem_or_eq_of_mem_set ha with hold | rfl
            · exact hdisjoint a hold b (List.mem_cons_of_mem _ hb)
            · rintro rfl
              exact (List.nodup_cons.mp hrest).1 hb
        obtain ⟨hlength, hids, hmem⟩ := ih _ hset
        refine ⟨by rw [hlength, List.length_set], hids, fun peer hpeer => ?_⟩
        rcases List.mem_append.mp (hmem peer hpeer) with hchosen | hrest
        · rcases List.mem_or_eq_of_mem_set hchosen with hold | rfl
          · exact List.mem_append_left _ hold
          · exact List.mem_append_right _ List.mem_cons_self
        · exact List.mem_append_right _ (List.mem_cons_of_mem _ hrest)
      · exact ⟨rfl, hself⟩
    · exact ⟨rfl, hself⟩

/-- The candidates of a selection: one for each id that was given and not excluded. -/
theorem candidates_spec (peers : List MeshPeer) (excludedPeer : Option String) :
    ((((deduplicatePeers peers excludedPeer).keys.ascending.filterMap fun id =>
      (deduplicatePeers peers excludedPeer).lookup id).insertionSort
        fun left right => left.rank ≤ right.rank).map MeshPeer.id).Nodup ∧
    ∀ peer ∈ ((deduplicatePeers peers excludedPeer).keys.ascending.filterMap fun id =>
      (deduplicatePeers peers excludedPeer).lookup id).insertionSort
        fun left right => left.rank ≤ right.rank,
      peer ∈ peers ∧ excludedPeer ≠ some peer.id := by
  constructor
  · rw [((List.perm_insertionSort _ _).map MeshPeer.id).nodup_iff, List.map_filterMap]
    refine (Finset.nodup_ascending _).filterMap fun id id' key hkey hkey' => ?_
    obtain ⟨peer, hpeer, rfl⟩ := Option.map_eq_some_iff.mp hkey
    obtain ⟨peer', hpeer', heq⟩ := Option.map_eq_some_iff.mp hkey'
    rw [← (lookup_deduplicatePeers hpeer).1, ← (lookup_deduplicatePeers hpeer').1, heq]
  · intro peer hmem
    obtain ⟨id, _, hlookup⟩ := List.mem_filterMap.mp ((List.mem_insertionSort _).mp hmem)
    obtain ⟨rfl, hgiven, hexcluded⟩ := lookup_deduplicatePeers hlookup
    exact ⟨hgiven, hexcluded⟩

/-- At most `fanout` peers are selected, with distinct ids, from those given, and never the
excluded one. -/
theorem selectMeshPeers_spec (peers : List MeshPeer) (excludedPeer : Option String)
    (fanout unknownPeerReserve : ℕ) :
    (selectMeshPeers peers excludedPeer fanout unknownPeerReserve).length ≤ fanout ∧
    ((selectMeshPeers peers excludedPeer fanout unknownPeerReserve).map MeshPeer.id).Nodup ∧
    ∀ peer ∈ selectMeshPeers peers excludedPeer fanout unknownPeerReserve,
      peer ∈ peers ∧ excludedPeer ≠ some peer.id := by
  obtain ⟨hnodup, hgiven⟩ := candidates_spec peers excludedPeer
  unfold selectMeshPeers
  dsimp only
  generalize ((deduplicatePeers peers excludedPeer).keys.ascending.filterMap fun id =>
    (deduplicatePeers peers excludedPeer).lookup id).insertionSort
      (fun left right => left.rank ≤ right.rank) = candidates
    at hnodup hgiven ⊢
  split
  · next hfew => exact ⟨hfew, hnodup, hgiven⟩
  · have hsublist : (candidates.take (min fanout candidates.length) ++
        (candidates.drop (min fanout candidates.length)).filter MeshPeer.isUnknown).Sublist
          candidates := by
      conv_rhs => rw [← List.take_append_drop (min fanout candidates.length) candidates]
      exact List.Sublist.append_left List.filter_sublist _
    obtain ⟨hlength, hids, hmem⟩ := reserveUnknown_spec _ _ _
      (hnodup.sublist (hsublist.map MeshPeer.id))
    refine ⟨?_, hids, fun peer hpeer => hgiven peer (hsublist.subset (hmem peer hpeer))⟩
    rw [hlength, List.length_take]
    omega

/-- `clamp(-100, 100)`. -/
def clampScore (score : ℤ) : ℤ := max (-100) (min 100 score)

namespace InvWantMesh

/-- `InvWantMesh::peers_with_behavior`. -/
def peersWithBehavior (m : InvWantMesh) (peers : List MeshPeer) : List MeshPeer :=
  peers.map fun peer =>
    let qualityScore :=
      match peer.qualityScore, m.peerBehaviorScore peer.id with
      | some external, some local_ => some (clampScore (satAddI32 external local_))
      | external, local_ => external.or local_
    match qualityScore with
    | some score => MeshPeer.observed peer.id score
    | none => MeshPeer.new peer.id

/-- `InvWantMesh::send_to_selected_peers`. -/
def sendToSelectedPeers (m : InvWantMesh) (peers : List MeshPeer) (excludedPeer : Option String)
    (message : InvWantWireMessage) : List InvWantAction :=
  (selectMeshPeers (m.peersWithBehavior peers) excludedPeer m.options.fanout
    m.options.unknownPeerReserve).map fun peer => .send peer.id message

/-- Behaviour scores change no id. -/
theorem map_id_peersWithBehavior (m : InvWantMesh) (peers : List MeshPeer) :
    (m.peersWithBehavior peers).map MeshPeer.id = peers.map MeshPeer.id := by
  rw [peersWithBehavior, List.map_map]
  refine List.map_congr_left fun peer _ => ?_
  simp only [Function.comp_apply]
  split <;> rfl

/-- The peers that are sent to are among those given, and not the excluded one. -/
theorem mem_of_mem_sendToSelectedPeers {m : InvWantMesh} {peers : List MeshPeer}
    {excludedPeer : Option String} {message : InvWantWireMessage} {action : InvWantAction}
    (h : action ∈ m.sendToSelectedPeers peers excludedPeer message) :
    ∃ peer ∈ peers, action = .send peer.id message ∧ excludedPeer ≠ some peer.id := by
  obtain ⟨selected, hmem, rfl⟩ := List.mem_map.mp h
  obtain ⟨_, _, hgiven⟩ := selectMeshPeers_spec (m.peersWithBehavior peers) excludedPeer
    m.options.fanout m.options.unknownPeerReserve
  obtain ⟨hselected, hexcluded⟩ := hgiven selected hmem
  have hid : selected.id ∈ peers.map MeshPeer.id := by
    rw [← m.map_id_peersWithBehavior]
    exact List.mem_map_of_mem hselected
  obtain ⟨peer, hpeer, hpeerId⟩ := List.mem_map.mp hid
  exact ⟨peer, hpeer, by rw [hpeerId], by rwa [hpeerId]⟩

/-- Only the given message is sent. -/
theorem eq_send_of_mem_sendToSelectedPeers {m : InvWantMesh} {peers : List MeshPeer}
    {excludedPeer : Option String} {message : InvWantWireMessage} {action : InvWantAction}
    (h : action ∈ m.sendToSelectedPeers peers excludedPeer message) :
    ∃ peerId, action = .send peerId message := by
  obtain ⟨peer, _, rfl⟩ := List.mem_map.mp h
  exact ⟨peer.id, rfl⟩

end InvWantMesh

end NostrPubsub
