import NostrPubsub.WireTcp.InboundPeers
import NostrPubsub.WireTcp.ReadTurns

/-!
# The peers of the wire driver are bounded

A driver has selected peers and inbound clients, no peer is both, and there are never more than it
has room for; its connections and streams are theirs. While peers are selected, a deselected peer
still has its connections until it is forgotten: the invariant `Slots` names the peers that are yet to
be forgotten.
-/

namespace NostrPubsub.WireTcp

variable {τ : Type}

namespace WireTcpDriver

open WireM

/-- The peers of a driver, and those that are still to be forgotten. -/
structure Slots (config : WireConfig τ) (leaving : String → Prop) (d : WireTcpDriver τ) : Prop where
  disjoint : Disjoint d.selectedPeers d.inbound
  inbound_le : d.inbound.card ≤ config.options.inboundPeerCapacity
  total_le : d.selectedPeers.card + d.inbound.card ≤ config.options.peerCapacity
  tracks : ∀ peer, d.Tracks peer → (peer ∈ d.selectedPeers ∨ peer ∈ d.inbound) ∨ leaving peer
  active : ∀ peer ∈ d.active, (peer ∈ d.selectedPeers ∨ peer ∈ d.inbound) ∨ leaving peer

variable {config : WireConfig τ} {leaving : String → Prop} {d : WireTcpDriver τ}

theorem slots_bind (config : WireConfig τ) (tcp : τ) (leaving : String → Prop) :
    Slots config leaving (bind tcp) where
  disjoint := Finset.disjoint_empty_left _
  inbound_le := Nat.zero_le _
  total_le := Nat.zero_le _
  tracks := by
    rintro peer ⟨id, connection, hlookup, -⟩
    rw [show (bind tcp).connections = ∅ from rfl, Finmap.lookup_empty] at hlookup
    cases hlookup
  active peer hpeer := absurd hpeer Finmap.notMem_empty

theorem Slots.mono {leaving' : String → Prop} (h : Slots config leaving d)
    (hleaving : ∀ peer, (d.Tracks peer ∨ peer ∈ d.active) → leaving peer →
      (peer ∈ d.selectedPeers ∨ peer ∈ d.inbound) ∨ leaving' peer) : Slots config leaving' d :=
  { h with
    tracks := fun peer hpeer => (h.tracks peer hpeer).elim .inl (hleaving peer (.inl hpeer))
    active := fun peer hpeer => (h.active peer hpeer).elim .inl (hleaving peer (.inr hpeer)) }

theorem selected_of_ensurePeerCapacity {peer : String}
    (h : d.ensurePeerCapacity config peer = .ok ()) :
    peer ∈ d.selectedPeers ∨ peer ∈ d.inbound := by
  by_contra hnot
  have herror : d.ensurePeerSelected peer =
      .error (.storage "TCP/FIPS Nostr pubsub peer is no longer selected") := if_neg hnot
  rw [ensurePeerCapacity, herror] at h
  cases h

theorem Tracks.of_insert {peer : String} {id : ConnectionId} {connection : TrackedConnection}
    (h : ({ d with connections := d.connections.insert id connection } : WireTcpDriver τ).Tracks peer) :
    peer = connection.peer ∨ d.Tracks peer := by
  obtain ⟨other, found, hlookup, rfl⟩ := h
  by_cases hid : other = id
  · subst hid
    rw [Finmap.lookup_insert] at hlookup
    exact .inl (by rw [Option.some.inj hlookup])
  · rw [Finmap.lookup_insert_of_ne _ hid] at hlookup
    exact .inr ⟨other, found, hlookup, rfl⟩

theorem restartQueue_eq (d : WireTcpDriver τ) (peer : String) :
    ∃ queues, d.restartQueue peer = { d with queues } := by
  rw [restartQueue]
  split
  · exact ⟨d.queues, rfl⟩
  · exact ⟨_, rfl⟩

/-- The peers stay, and only theirs is what is connected now. -/
theorem Slots.of_same_peers {d' : WireTcpDriver τ} (h : Slots config leaving d)
    (hselected : d'.selectedPeers = d.selectedPeers) (hinbound : d'.inbound = d.inbound)
    (htracks : ∀ peer, d'.Tracks peer →
      (peer ∈ d.selectedPeers ∨ peer ∈ d.inbound) ∨ d.Tracks peer)
    (hactive : ∀ peer ∈ d'.active, peer ∈ d.active ∨ d.Tracks peer) : Slots config leaving d' where
  disjoint := by
    rw [hselected, hinbound]
    exact h.disjoint
  inbound_le := by
    rw [hinbound]
    exact h.inbound_le
  total_le := by
    rw [hselected, hinbound]
    exact h.total_le
  tracks peer hpeer := by
    rw [hselected, hinbound]
    exact (htracks peer hpeer).elim .inl (h.tracks peer)
  active peer hpeer := by
    rw [hselected, hinbound]
    exact (hactive peer hpeer).elim (h.active peer) (h.tracks peer)

theorem Slots.dismiss (h : Slots config leaving d) {peer : String} (htracks : ¬ d.Tracks peer)
    (hactive : peer ∉ d.active) :
    Slots config leaving { d with
      selectedPeers := d.selectedPeers.erase peer
      inbound := d.inbound.erase peer } := by
  have hstays : ∀ other, other ≠ peer →
      (other ∈ d.selectedPeers ∨ other ∈ d.inbound) ∨ leaving other →
      (other ∈ d.selectedPeers.erase peer ∨ other ∈ d.inbound.erase peer) ∨ leaving other := by
    intro other hother hplace
    rwa [Finset.mem_erase, Finset.mem_erase, and_iff_right hother, and_iff_right hother]
  refine ⟨?_, ?_, ?_, fun other hother => ?_, fun other hother => ?_⟩
  · exact h.disjoint.mono (Finset.erase_subset _ _) (Finset.erase_subset _ _)
  · exact (Finset.card_erase_le).trans h.inbound_le
  · exact (Nat.add_le_add Finset.card_erase_le Finset.card_erase_le).trans h.total_le
  · refine hstays other ?_ (h.tracks other hother)
    rintro rfl
    exact htracks hother
  · refine hstays other ?_ (h.active other hother)
    rintro rfl
    exact hactive hother

/-- No change takes a peer's place from it while it is connected. -/
theorem stable_slots : Stable config (Slots config leaving) := by
  intro d d' hchange h
  cases hchange with
  | aside selectedPeers inbound connections active queues =>
    refine h.of_same_peers selectedPeers inbound (fun peer hpeer => .inr ?_) fun peer hpeer => .inl ?_
    · rwa [Tracks, connections] at hpeer
    · rwa [active] at hpeer
  | tracked id peer direction hcapacity =>
    refine h.of_same_peers rfl rfl (fun other hother => ?_) fun _ => .inl
    rcases hother.of_insert with rfl | hother
    · exact .inl (selected_of_ensurePeerCapacity hcapacity)
    · exact .inr hother
  | untracked connections hkept =>
    refine h.of_same_peers rfl rfl ?_ fun _ => .inl
    rintro other ⟨id, connection, hlookup, hpeer⟩
    exact .inr ⟨id, connection, hkept id connection hlookup, hpeer⟩
  | activated active hactive => exact h.of_same_peers rfl rfl (fun _ => .inr) hactive
  | dismissed peer htracks hactive => exact h.dismiss htracks hactive
  | restarted peer =>
    obtain ⟨queues, hqueues⟩ := d.restartQueue_eq peer
    rw [hqueues]
    exact h.of_same_peers rfl rfl (fun _ => .inr) fun _ => .inl
  | dropped peer => exact h.of_same_peers rfl rfl (fun _ => .inr) fun _ => .inl
  | wrote peer n hqueue hn => exact h.of_same_peers rfl rfl (fun _ => .inr) fun _ => .inl

/-! ## Selecting peers -/

theorem not_tracks_forgetPeer (config : WireConfig τ) (t : WireTurn τ) (peer : String) :
    ¬ (forgetPeer config peer t).2.driver.Tracks peer ∧
      peer ∉ (forgetPeer config peer t).2.driver.active := by
  obtain ⟨queues, hqueues⟩ := restartQueue_eq { t.driver.dismiss peer with
    tcp := (config.endpoint.abortPeer t.driver.tcp peer).2, inputs := t.driver.inputs.erase peer } peer
  have hdriver : (forgetPeer config peer t).2.driver = { t.driver.dismiss peer with
      tcp := (config.endpoint.abortPeer t.driver.tcp peer).2
      inputs := t.driver.inputs.erase peer
      queues } := hqueues
  rw [hdriver]
  exact ⟨t.driver.not_tracks_disconnect peer, t.driver.notMem_active_disconnect peer⟩

/-- A peer that is forgotten has left. -/
theorem slots_forgetPeer (peer : String) {t : WireTurn τ}
    (h : Slots config (fun other => other = peer ∨ leaving other) t.driver) :
    Slots config leaving (forgetPeer config peer t).2.driver := by
  obtain ⟨htracks, hactive⟩ := not_tracks_forgetPeer config t peer
  refine (stable_slots.forgetPeer peer t h).mono fun other hother hleaving => ?_
  rcases hleaving with rfl | hleaving
  · exact absurd hother (not_or.mpr ⟨htracks, hactive⟩)
  · exact .inr hleaving

/-- The peers of a list are forgotten, but for some that stay. -/
theorem slots_forEach {body : String → WireM τ Unit}
    (hbody : ∀ peer, body peer = pure () ∧ leaving peer ∨
      body peer = ignoreError (forgetPeer config peer)) (peers : List String) {t : WireTurn τ}
    (h : Slots config (fun peer => peer ∈ peers ∨ leaving peer) t.driver) :
    Slots config leaving (forEach body peers t).2.driver := by
  induction peers generalizing t with
  | nil => exact h.mono fun peer _ hpeer => .inr (hpeer.resolve_left List.not_mem_nil)
  | cons first rest ih =>
    rcases hbody first with ⟨hfirst, hstays⟩ | hfirst
    · have hrest : Slots config (fun peer => peer ∈ rest ∨ leaving peer) t.driver := by
        refine h.mono fun peer _ hpeer => .inr ?_
        rcases hpeer with hpeer | hpeer
        · rcases List.mem_cons.mp hpeer with rfl | hpeer
          · exact .inr hstays
          · exact .inl hpeer
        · exact .inr hpeer
      rw [forEach, hfirst]
      exact ih hrest
    · rw [forEach, hfirst]
      refine ih (slots_forgetPeer first ?_)
      exact h.mono fun peer _ hpeer => .inr (by simpa [or_assoc] using hpeer)

/-- A loop whose turns do not fail goes through. -/
theorem forEach_bind {α : Type} {body : String → WireM τ Unit}
    (hbody : ∀ peer t, (body peer t).1 = .ok ()) (peers : List String) (f : Unit → WireM τ α)
    (t : WireTurn τ) : (forEach body peers >>= f) t = f () (forEach body peers t).2 := by
  induction peers generalizing t with
  | nil => rfl
  | cons first rest ih =>
    have hfirst : (body first >>= fun _ => forEach body rest) t
        = forEach body rest (body first t).2 := by
      rw [bind_apply]
      rcases hresult : body first t with ⟨_ | _, t'⟩
      · have hok := hbody first t
        rw [hresult] at hok
        cases hok
      · rfl
    rw [bind_apply, forEach, hfirst, ← bind_apply]
    exact ih _

/-- Inbound clients are only admitted by datagrams. -/
theorem stable_inbound_subset (clients : Finset String) :
    Stable config fun d : WireTcpDriver τ => d.inbound ⊆ clients := by
  intro d d' hchange h
  cases hchange with
  | aside selectedPeers inbound connections active queues => rwa [inbound]
  | dismissed peer htracks hactive => exact (Finset.erase_subset _ _).trans h
  | restarted peer =>
    obtain ⟨queues, hqueues⟩ := d.restartQueue_eq peer
    rw [hqueues]
    exact h
  | tracked | untracked | activated | dropped | wrote => exact h

/-- The selected peers are replaced, when those that leave are yet to be forgotten. -/
theorem Slots.select {peers : Finset String} (h : Slots config (· ∈ peers) d)
    (hpeers : peers.card ≤ config.options.peerCapacity - config.options.inboundPeerCapacity)
    (hdisjoint : Disjoint peers d.inbound) :
    Slots config (fun peer => peer ∈ d.selectedPeers.filter fun peer => peer ∉ peers)
      { d with selectedPeers := peers } := by
  have hplace : ∀ peer, (peer ∈ d.selectedPeers ∨ peer ∈ d.inbound) ∨ peer ∈ peers →
      (peer ∈ peers ∨ peer ∈ d.inbound) ∨
        peer ∈ d.selectedPeers.filter fun peer => peer ∉ peers := by
    intro peer hpeer
    by_cases hmem : peer ∈ peers
    · exact .inl (.inl hmem)
    · rw [Finset.mem_filter]
      tauto
  refine ⟨hdisjoint, h.inbound_le, ?_, fun peer hpeer => hplace peer (h.tracks peer hpeer),
    fun peer hpeer => hplace peer (h.active peer hpeer)⟩
  have hinbound := h.inbound_le
  have htotal := h.total_le
  show peers.card + d.inbound.card ≤ config.options.peerCapacity
  omega

/-- With room for the inbound clients, any peers can be selected. -/
theorem slots_selectPeers {peers : Finset String} (expired : Finset String)
    (hpeers : peers.card ≤ config.options.peerCapacity - config.options.inboundPeerCapacity)
    {t : WireTurn τ} (h : Slots config (fun _ => False) t.driver) :
    Slots config (fun _ => False) (selectPeers config peers expired t).2.driver := by
  rw [selectPeers, getDriver_bind, modifyDriver_bind]
  set retired := (t.driver.inbound.filter fun peer => peer ∈ peers ∨ peer ∈ expired).ascending
    with hretired
  set rest := t.driver.inbound.filter fun peer => peer ∉ retired with hrest
  have hmem : ∀ peer, peer ∈ retired ↔
      peer ∈ t.driver.inbound ∧ (peer ∈ peers ∨ peer ∈ expired) := fun peer => by
    rw [hretired, Finset.mem_ascending, Finset.mem_filter]
  have hsubset : rest ⊆ t.driver.inbound := Finset.filter_subset _ _
  have hplace : ∀ peer, (peer ∈ t.driver.selectedPeers ∨ peer ∈ t.driver.inbound) ∨ False →
      (peer ∈ t.driver.selectedPeers ∨ peer ∈ rest) ∨ peer ∈ retired ∨ peer ∈ peers := by
    intro peer hpeer
    by_cases hgone : peer ∈ retired
    · exact .inr (.inl hgone)
    · rw [hrest, Finset.mem_filter]
      tauto
  have hstart : Slots config (fun peer => peer ∈ retired ∨ peer ∈ peers)
      { t.driver with inbound := rest } :=
    { disjoint := h.disjoint.mono_right hsubset
      inbound_le := (Finset.card_le_card hsubset).trans h.inbound_le
      total_le := (Nat.add_le_add_left (Finset.card_le_card hsubset) _).trans h.total_le
      tracks := fun peer hpeer => hplace peer (h.tracks peer hpeer)
      active := fun peer hpeer => hplace peer (h.active peer hpeer) }
  -- the retired clients that are not selected are forgotten
  rw [forEach_bind]
  swap
  · intro peer t'
    split <;> rfl
  set body : String → WireM τ Unit := fun peer =>
    if peer ∈ peers then pure () else ignoreError (forgetPeer config peer) with hbody
  have hretiredBody : ∀ peer, body peer = pure () ∧ peer ∈ peers ∨
      body peer = ignoreError (forgetPeer config peer) := by
    intro peer
    by_cases hpeer : peer ∈ peers
    · exact .inl ⟨if_pos hpeer, hpeer⟩
    · exact .inr (if_neg hpeer)
  set t₀ : WireTurn τ := { t with driver := { t.driver with inbound := rest } } with ht₀
  have hloop := slots_forEach hretiredBody retired (t := t₀) hstart
  have hclients : (forEach body retired t₀).2.driver.inbound ⊆ rest := by
    have hkeeps : Keeps (fun d => d.inbound ⊆ rest) (forEach body retired : WireM τ Unit) := by
      refine preserves_forEach (fun peer => ?_) _
      have hforget := @Stable.forgetPeer _ config _ (stable_inbound_subset rest) peer
      exact preserves_ite (preserves_pure ()) hforget.ignoreError
    exact hkeeps t₀ (Finset.Subset.refl rest)
  have hdisjoint : Disjoint peers (forEach body retired t₀).2.driver.inbound := by
    refine Finset.disjoint_left.mpr fun peer hpeer hclient => ?_
    have hkept := Finset.mem_filter.mp (hclients hclient)
    exact hkept.2 ((hmem peer).mpr ⟨hkept.1, .inl hpeer⟩)
  -- and then the peers that were selected and are no longer
  rw [getDriver_bind, modifyDriver_bind, bind_pure_state]
  refine slots_forEach (fun _ => .inr rfl) _ ?_
  exact (hloop.select hpeers hdisjoint).mono fun peer _ hpeer =>
    .inr (.inl (Finset.mem_ascending.mpr hpeer))

/-- An admitted client takes a free place. -/
theorem Slots.admitPeer (h : Slots config leaving d) (decode : List UInt8 → Option Segment)
    (peer : String) (bytes : List UInt8) :
    Slots config leaving (d.admitPeer config decode peer bytes).2 := by
  rw [WireTcpDriver.admitPeer]
  split
  · exact h
  · next hselected =>
    split
    · exact h
    · next hknown =>
      split
      · exact h
      · next hroom =>
        simp only [not_or, Nat.not_le] at hroom
        have hcard := Finset.card_insert_of_notMem hknown
        refine ⟨Finset.disjoint_insert_right.mpr ⟨hselected, h.disjoint⟩, ?_, ?_, ?_, ?_⟩
        · show (insert peer d.inbound).card ≤ _
          omega
        · show d.selectedPeers.card + (insert peer d.inbound).card ≤ _
          omega
        · intro other hother
          exact (h.tracks other hother).imp_left (Or.imp_right Finset.mem_insert_of_mem)
        · intro other hother
          exact (h.active other hother).imp_left (Or.imp_right Finset.mem_insert_of_mem)

theorem slots_queueFrame (peer : String) (frame : List UInt8) :
    Keeps (Slots config leaving) (queueFrame config peer frame) := by
  have hqueues : ∀ (d : WireTcpDriver τ) queues, Slots config leaving d →
      Slots config leaving { d with queues } :=
    fun d queues h => h.of_same_peers rfl rfl (fun _ => .inr) fun _ => .inl
  refine preserves_getDriver.bind fun d => (Stable.check _).bind fun _ => ?_
  refine preserves_ite (preserves_fail _) ?_
  cases encodeRecord frame with
  | error error => exact preserves_fail error
  | ok record =>
    refine preserves_ite (preserves_fail _) ?_
    have hopen : Keeps (Slots config leaving) (modifyDriver fun d' =>
        { d' with queues := d'.queues.insert peer ((d.queues.lookup peer).getD {}) } : WireM τ Unit) :=
      fun t ht => hqueues t.driver _ ht
    refine hopen.bind fun _ => preserves_ite (preserves_fail _) (preserves_ite (preserves_fail _) ?_)
    exact fun t ht => hqueues t.driver _ ht

/-! ## Runs -/

theorem slots_runDriver (decode : List UInt8 → Option Segment) (tcp : τ)
    {calls : List (DriverCall τ)} (hroom : ∀ call ∈ calls, call.LeavesRoom config.options) :
    Slots config (fun _ => False) (runDriver config decode tcp calls) := by
  induction calls using List.reverseRecOn with
  | nil => exact slots_bind config tcp _
  | append_singleton calls call ih =>
    have hbefore := ih fun call hcall => hroom call (List.mem_append_left _ hcall)
    rw [runDriver, List.foldl_append, ← runDriver]
    refine Stable.run stable_slots hbefore call ?_ ?_ ?_
    · rintro peers expired rfl
      have hpeers := hroom (.selectPeers peers expired) (by simp)
      exact slots_selectPeers expired hpeers (t := ⟨_, []⟩) hbefore
    · rintro peer bytes rfl
      rw [DriverCall.run_admitPeer]
      exact hbefore.admitPeer decode peer bytes
    · rintro peer frame rfl
      exact (slots_queueFrame peer frame).driverAfter hbefore

/-- In every run: no peer is both selected and an inbound client, there are no more inbound clients and
no more peers than fit, every connection and every stream is that of a peer, and the connections are
those of no more peers than fit. -/
theorem peers_never_oversubscribed (config : WireConfig τ) (decode : List UInt8 → Option Segment)
    (tcp : τ) (calls : List (DriverCall τ))
    (hroom : ∀ call ∈ calls, call.LeavesRoom config.options) :
    let d := runDriver config decode tcp calls
    Disjoint d.selectedPeers d.inbound ∧
    d.inbound.card ≤ config.options.inboundPeerCapacity ∧
    (d.selectedPeers ∪ d.inbound).card ≤ config.options.peerCapacity ∧
    (∀ id connection, d.connections.lookup id = some connection →
      connection.peer ∈ d.selectedPeers ∪ d.inbound) ∧
    (∀ peer ∈ d.active, peer ∈ d.selectedPeers ∪ d.inbound) ∧
    (d.view config).trackedPeers.length ≤ config.options.peerCapacity := by
  intro d
  have h : Slots config (fun _ => False) d := slots_runDriver decode tcp hroom
  have hcard : (d.selectedPeers ∪ d.inbound).card ≤ config.options.peerCapacity := by
    rw [Finset.card_union_of_disjoint h.disjoint]
    exact h.total_le
  have htracks : ∀ peer, d.Tracks peer → peer ∈ d.selectedPeers ∪ d.inbound := fun peer hpeer =>
    Finset.mem_union.mpr ((h.tracks peer hpeer).resolve_right id)
  refine ⟨h.disjoint, h.inbound_le, hcard, ?_, ?_, ?_⟩
  · exact fun id connection hlookup => htracks _ ⟨id, connection, hlookup, rfl⟩
  · exact fun peer hpeer => Finset.mem_union.mpr ((h.active peer hpeer).resolve_right id)
  · have hsubset : (d.view config).trackedPeers.toFinset ⊆ d.selectedPeers ∪ d.inbound := by
      intro peer hpeer
      exact htracks peer (View.mem_trackedPeers.mp (List.mem_toFinset.mp hpeer))
    rw [← List.toFinset_card_of_nodup (View.nodup_trackedPeers _)]
    exact (Finset.card_le_card hsubset).trans hcard

/-- A decoder for which every datagram opens a connection. -/
def synchronizes : List UInt8 → Option Segment := fun _ =>
  some { dstPort := servicePort, isSyn := true, ack := none, payload := [], supportsFipsVersion := true }

/-- A peer is selected and connected to, and two clients come. -/
def twoClients : List (DriverCall (List UInt8)) :=
  [.selectPeers {"npub1b"} ∅, .connectPeer "npub1b" false 0, .admitPeer "npub1c" (List.replicate 20 0),
    .admitPeer "npub1d" (List.replicate 20 0), .driveReady 0]

theorem leavesRoom_twoClients : ∀ call ∈ twoClients, call.LeavesRoom oneConnectionConfig.options := by
  intro call hcall
  simp only [twoClients, List.mem_cons, List.not_mem_nil, or_false] at hcall
  rcases hcall with rfl | rfl | rfl | rfl | rfl
  · exact le_refl 1
  · exact True.intro
  · exact True.intro
  · exact True.intro
  · exact True.intro

/-- There is room for one of them. -/
theorem peers_never_oversubscribed_inbound :
    (runDriver oneConnectionConfig synchronizes [] twoClients).inbound = {"npub1c"} ∧
    ((runDriver oneConnectionConfig synchronizes [] twoClients).selectedPeers ∪
      (runDriver oneConnectionConfig synchronizes [] twoClients).inbound).card ≤ 2 := by
  have hslots := peers_never_oversubscribed oneConnectionConfig synchronizes [] twoClients
    leavesRoom_twoClients
  exact ⟨by decide +kernel, hslots.2.2.1⟩

end WireTcpDriver

end NostrPubsub.WireTcp
