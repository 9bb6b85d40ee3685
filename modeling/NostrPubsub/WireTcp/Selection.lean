import NostrPubsub.Stream.TcpDriver

/-!
# The stream of a peer

Two peers may connect to each other at the same time. `refresh_active` keeps one stream of each peer
and aborts the others; it is written twice, in `wire_tcp.rs` and in `stream_tcp.rs`, with one way to
choose. This file has what the two share: the streams of a peer with the one to keep first, the map
of the streams to keep, and the streams to abort.
-/

theorem List.Nodup.length_filter_le_one {α : Type} {l : List α} (hl : l.Nodup) {q : α → Bool}
    (h : ∀ a ∈ l, ∀ b ∈ l, q a = true → q b = true → a = b) : (l.filter q).length ≤ 1 := by
  rcases hfilter : l.filter q with _ | ⟨a, _ | ⟨b, rest⟩⟩
  · exact Nat.zero_le 1
  · exact le_rfl
  · have hnodup := hl.filter q
    have ha : a ∈ l.filter q := hfilter ▸ List.mem_cons_self
    have hb : b ∈ l.filter q := hfilter ▸ List.mem_cons_of_mem _ List.mem_cons_self
    rw [List.mem_filter] at ha hb
    obtain rfl := h a ha.1 b hb.1 ha.2 hb.2
    rw [hfilter] at hnodup
    simp at hnodup

namespace NostrPubsub

namespace WireTcp

/-- The connections of a driver. -/
abbrev Connections := Finmap fun _ : ConnectionId => TrackedConnection

/-- What a driver sees of its connections. -/
structure View where
  localNpub : String
  /-- `FipsTcpEndpoint::state`. -/
  state : ConnectionId → Option TcpState
  connections : Connections

namespace View

variable (v : View)

/-- A stream that can be selected: `Established` or `CloseWait`. -/
def isOpen (id : ConnectionId) : Bool :=
  v.state id == some .established || v.state id == some .closeWait

/-- The open streams of a peer, the one to keep first: those in the direction that the two npubs
agree on, by id, then the others. -/
def peerStreams (peer : String) : List ConnectionId :=
  let streams := v.connections.keys.ascending.filter fun id =>
    v.isOpen id && (v.connections.lookup id).any fun connection => connection.peer == peer
  let preferred := fun id => (v.connections.lookup id).any fun connection =>
    (connection.direction == .outbound) == decide (v.localNpub < peer)
  streams.filter preferred ++ streams.filter fun id => !preferred id

/-- The peers with a tracked connection, in order. -/
def trackedPeers : List String :=
  (v.connections.keys.image fun id =>
    ((v.connections.lookup id).map TrackedConnection.peer).getD "").ascending

/-- `next_active` of `refresh_active`: the first stream of every peer that has one. -/
def nextActive : Table ConnectionId :=
  v.trackedPeers.foldl
    (fun next peer =>
      match v.peerStreams peer with
      | [] => next
      | selected :: _ => next.insert peer selected)
    ∅

/-- `extras` of `refresh_active`: the other streams. -/
def extras : List ConnectionId := v.trackedPeers.flatMap fun peer => (v.peerStreams peer).drop 1

/-! ### The choice -/

variable {v} {peer : String} {id : ConnectionId}

/-- The open streams of a peer, by id. -/
def openStreams (v : View) (peer : String) : List ConnectionId :=
  v.connections.keys.ascending.filter fun id =>
    v.isOpen id && (v.connections.lookup id).any fun connection => connection.peer == peer

/-- The direction of a stream is the one that the two npubs agree on. -/
def prefers (v : View) (peer : String) (id : ConnectionId) : Bool :=
  (v.connections.lookup id).any fun connection =>
    (connection.direction == .outbound) == decide (v.localNpub < peer)

theorem peerStreams_eq : v.peerStreams peer
    = (v.openStreams peer).filter (v.prefers peer) ++
      (v.openStreams peer).filter fun id => !v.prefers peer id := rfl

theorem mem_openStreams : id ∈ v.openStreams peer ↔
    v.isOpen id = true ∧
      ∃ connection, v.connections.lookup id = some connection ∧ connection.peer = peer := by
  rw [openStreams, List.mem_filter, Finset.mem_ascending, Finmap.mem_keys, Finmap.mem_iff,
    Bool.and_eq_true, Option.any_eq_true]
  constructor
  · rintro ⟨_, hopen, connection, hlookup, hpeer⟩
    exact ⟨hopen, connection, hlookup, beq_iff_eq.mp hpeer⟩
  · rintro ⟨hopen, connection, hlookup, hpeer⟩
    exact ⟨⟨connection, hlookup⟩, hopen, connection, hlookup, beq_iff_eq.mpr hpeer⟩

theorem nodup_openStreams : (v.openStreams peer).Nodup := (Finset.nodup_ascending _).filter _

theorem mem_peerStreams : id ∈ v.peerStreams peer ↔ id ∈ v.openStreams peer := by
  rw [peerStreams_eq, List.mem_append, List.mem_filter, List.mem_filter, ← and_or_left]
  simp

theorem nodup_peerStreams : (v.peerStreams peer).Nodup := by
  have hperm : (v.peerStreams peer).Perm (v.openStreams peer) := by
    rw [peerStreams_eq]
    exact List.filter_append_perm _ _
  exact hperm.nodup_iff.mpr nodup_openStreams

theorem mem_trackedPeers : peer ∈ v.trackedPeers ↔
    ∃ id connection, v.connections.lookup id = some connection ∧ connection.peer = peer := by
  rw [trackedPeers, Finset.mem_ascending, Finset.mem_image]
  constructor
  · rintro ⟨id, hid, hpeer⟩
    rw [Finmap.mem_keys, Finmap.mem_iff] at hid
    obtain ⟨connection, hlookup⟩ := hid
    rw [hlookup] at hpeer
    exact ⟨id, connection, hlookup, hpeer⟩
  · rintro ⟨id, connection, hlookup, hpeer⟩
    refine ⟨id, ?_, ?_⟩
    · rw [Finmap.mem_keys, Finmap.mem_iff]
      exact ⟨connection, hlookup⟩
    · rw [hlookup]
      exact hpeer

theorem nodup_trackedPeers (v : View) : v.trackedPeers.Nodup := Finset.nodup_ascending _

theorem mem_trackedPeers_of_mem (h : id ∈ v.peerStreams peer) : peer ∈ v.trackedPeers := by
  obtain ⟨-, connection, hlookup, hpeer⟩ := mem_openStreams.mp (mem_peerStreams.mp h)
  exact mem_trackedPeers.mpr ⟨id, connection, hlookup, hpeer⟩

theorem lookup_foldl_selected (peers : List String) (next : Table ConnectionId) :
    (peers.foldl
      (fun next peer =>
        match v.peerStreams peer with
        | [] => next
        | selected :: _ => next.insert peer selected)
      next).lookup peer
      = if peer ∈ peers ∧ v.peerStreams peer ≠ [] then (v.peerStreams peer).head?
        else next.lookup peer := by
  induction peers generalizing next with
  | nil => simp
  | cons first peers ih =>
    rw [List.foldl_cons, ih]
    by_cases hfirst : peer = first
    · subst hfirst
      rcases hstreams : v.peerStreams peer with _ | ⟨selected, rest⟩
      · simp
      · simp
    · have hkept : Finmap.lookup peer (match v.peerStreams first with
          | [] => next
          | selected :: _ => next.insert first selected) = next.lookup peer := by
        split
        · rfl
        · exact Finmap.lookup_insert_of_ne _ hfirst
      rw [hkept]
      simp [hfirst]

/-- The first stream of a peer is the selected one. -/
theorem lookup_nextActive : v.nextActive.lookup peer = (v.peerStreams peer).head? := by
  rw [nextActive, lookup_foldl_selected]
  split
  · rfl
  · rename_i hnone
    rcases hstreams : v.peerStreams peer with _ | ⟨selected, rest⟩
    · exact Finmap.lookup_empty peer
    · refine absurd ⟨?_, ?_⟩ hnone
      · exact mem_trackedPeers_of_mem (hstreams ▸ List.mem_cons_self)
      · rw [hstreams]
        exact List.cons_ne_nil _ _

theorem mem_extras : id ∈ v.extras ↔ ∃ peer, id ∈ (v.peerStreams peer).drop 1 := by
  rw [extras, List.mem_flatMap]
  constructor
  · rintro ⟨peer, _, hid⟩
    exact ⟨peer, hid⟩
  · rintro ⟨peer, hid⟩
    exact ⟨peer, mem_trackedPeers_of_mem (List.mem_of_mem_drop hid), hid⟩

/-- With at most one stream in each direction, an extra stream is one in the other direction. -/
theorem mem_drop_peerStreams
    (hunique : ∀ id ∈ v.openStreams peer, ∀ id' ∈ v.openStreams peer,
      v.prefers peer id = v.prefers peer id' → id = id')
    (h : id ∈ (v.peerStreams peer).drop 1) :
    id ∈ v.openStreams peer ∧ v.prefers peer id = false := by
  have hpreferred : ((v.openStreams peer).filter (v.prefers peer)).length ≤ 1 :=
    nodup_openStreams.length_filter_le_one fun a ha b hb hpa hpb =>
      hunique a ha b hb (hpa.trans hpb.symm)
  have hothers : ((v.openStreams peer).filter fun id => !v.prefers peer id).length ≤ 1 :=
    nodup_openStreams.length_filter_le_one fun a ha b hb hpa hpb =>
      hunique a ha b hb (Bool.not_inj (hpa.trans hpb.symm))
  rw [peerStreams_eq] at h
  rcases hstreams : (v.openStreams peer).filter (v.prefers peer) with _ | ⟨first, rest⟩
  · rw [hstreams, List.nil_append, List.drop_eq_nil_of_le hothers] at h
    cases h
  · rw [hstreams] at h hpreferred
    obtain rfl : rest = [] := List.eq_nil_of_length_eq_zero (by simpa using hpreferred)
    have hid := List.mem_filter.mp h
    exact ⟨hid.1, by simpa using hid.2⟩

/-- A preferred stream is selected when it is the only one. -/
theorem lookup_nextActive_of_prefers
    (hunique : ∀ id' ∈ v.openStreams peer, v.prefers peer id' = true → id' = id)
    (hopen : id ∈ v.openStreams peer) (hprefers : v.prefers peer id = true) :
    v.nextActive.lookup peer = some id := by
  have hmem : id ∈ (v.openStreams peer).filter (v.prefers peer) :=
    List.mem_filter.mpr ⟨hopen, hprefers⟩
  rw [lookup_nextActive, peerStreams_eq]
  rcases hstreams : (v.openStreams peer).filter (v.prefers peer) with _ | ⟨first, rest⟩
  · rw [hstreams] at hmem
    cases hmem
  · have hfirst : first ∈ (v.openStreams peer).filter (v.prefers peer) :=
      hstreams ▸ List.mem_cons_self
    obtain ⟨hopen', hprefers'⟩ := List.mem_filter.mp hfirst
    rw [List.cons_append, List.head?_cons, hunique first hopen' hprefers']

end View

/-- The connections that the adapter still knows. -/
def retainLive (state : ConnectionId → Option TcpState) (connections : Connections) : Connections :=
  connections.filter fun id _ => (state id).isSome

/-- The peers whose stream changes, in order. -/
def changedPeers (active next : Table ConnectionId) : List String :=
  (active.keys ∪ next.keys).ascending.filter fun peer =>
    decide (active.lookup peer ≠ next.lookup peer)

end WireTcp

end NostrPubsub
