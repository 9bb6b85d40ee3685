import NostrPubsub.WireTcp.Driver

/-!
# What a refresh does

`refresh_active` of both drivers, as a change of what a driver sees: its connections with their
states, its selected streams, and the connections that it called `abort` for. A refresh changes
nothing, or it fails at one of the streams to abort, or it selects; `Refreshed` has a case for each,
and both drivers refine it.

The adapter is asked for one thing: `abort` works on one connection. That it keeps a record of the
calls is no assumption, as a record can be added to the state of any adapter.
-/

namespace NostrPubsub

namespace WireTcp

/-- A record of the connections that `abort` of an adapter was called for. -/
structure AbortLog {τ : Type} (endpoint : TcpEndpoint τ) where
  aborts : τ → List ConnectionId
  aborts_abort : ∀ t id, aborts (endpoint.abort t id).2 = aborts t ++ [id]
  state_abort : ∀ t id other, other ≠ id →
    endpoint.state (endpoint.abort t id).2 other = endpoint.state t other

/-- What a driver sees, and the connections that it called `abort` for. -/
structure Sight extends View where
  active : Table ConnectionId
  aborts : List ConnectionId

namespace Sight

/-- After the connections that the adapter does not know are dropped. -/
def retained (s : Sight) : Sight := { s with connections := retainLive s.state s.connections }

end Sight

/-- `abort` was called for some connections, and those it succeeded for are no more tracked. -/
structure Deduplicated (attempted : List ConnectionId) (s s' : Sight) : Prop where
  localNpub : s'.localNpub = s.localNpub
  aborts : s'.aborts = s.aborts ++ attempted
  state : ∀ id ∉ attempted, s'.state id = s.state id
  connections : ∀ id ∉ attempted, s'.connections.lookup id = s.connections.lookup id
  tracked : ∀ id connection,
    s'.connections.lookup id = some connection → s.connections.lookup id = some connection
  active : s'.active = s.active

namespace Deduplicated

variable {attempted : List ConnectionId} {s s' s'' : Sight}

protected theorem refl (s : Sight) : Deduplicated [] s s :=
  ⟨rfl, (List.append_nil _).symm, fun _ _ => rfl, fun _ _ => rfl, fun _ _ h => h, rfl⟩

protected theorem cons {id : ConnectionId} (h : Deduplicated [id] s s')
    (h' : Deduplicated attempted s' s'') : Deduplicated (id :: attempted) s s'' where
  localNpub := h'.localNpub.trans h.localNpub
  aborts := by rw [h'.aborts, h.aborts, List.append_assoc, List.singleton_append]
  state other hother := by
    rw [List.mem_cons, not_or] at hother
    rw [h'.state other hother.2, h.state other (mt List.mem_singleton.mp hother.1)]
  connections other hother := by
    rw [List.mem_cons, not_or] at hother
    rw [h'.connections other hother.2, h.connections other (mt List.mem_singleton.mp hother.1)]
  tracked other connection hother := h.tracked other connection (h'.tracked other connection hother)
  active := h'.active.trans h.active

/-- One call of `abort`. A connection is still tracked when the call failed. -/
theorem abort {τ : Type} {endpoint : TcpEndpoint τ} (log : AbortLog endpoint) {t : τ}
    (id : ConnectionId) (connections' : Connections) (hstate : s.state = endpoint.state t)
    (haborts : s.aborts = log.aborts t)
    (hconnections : connections' = s.connections ∨ connections' = s.connections.erase id) :
    Deduplicated [id] s
      { s with
        state := endpoint.state (endpoint.abort t id).2
        connections := connections'
        aborts := log.aborts (endpoint.abort t id).2 } where
  localNpub := rfl
  aborts := (log.aborts_abort t id).trans (by rw [haborts])
  state other hother := by
    rw [hstate]
    exact log.state_abort t id other (mt List.mem_singleton.mpr hother)
  connections other hother := by
    obtain rfl | rfl := hconnections
    · rfl
    · exact Finmap.lookup_erase_ne (mt List.mem_singleton.mpr hother)
  tracked other connection hother := by
    obtain rfl | rfl := hconnections
    · exact hother
    · by_cases hid : other = id
      · subst hid
        exact absurd (hother.symm.trans (Finmap.lookup_erase other s.connections)) nofun
      · exact (Finmap.lookup_erase_ne hid).symm.trans hother
  active := rfl

end Deduplicated

/-- A refresh of a driver, with whether it succeeded. -/
inductive Refreshed (s : Sight) : Bool → Sight → Prop where
  /-- The fast path: every connection is the established stream of its peer. -/
  | unchanged
      (h : ∀ id connection, s.connections.lookup id = some connection →
        s.state id = some .established ∧ s.active.lookup connection.peer = some id) :
      Refreshed s true s
  /-- One of the streams could not be aborted. -/
  | failed {s' : Sight} {attempted : List ConnectionId} (hextras : attempted <+: s.retained.extras)
      (hdedup : Deduplicated attempted s.retained s') :
      Refreshed s false s'
  /-- The streams were selected. What follows for the changed peers may still fail. -/
  | selected {s' : Sight} {attempted : List ConnectionId} (ok : Bool)
      (hextras : attempted <+: s.retained.extras) (hdedup : Deduplicated attempted s.retained s') :
      Refreshed s ok { s' with active := s.retained.nextActive }

/-! ## One connection in each direction -/

/-- There is at most one connection of a peer in each direction. -/
def Sight.OneEach (s : Sight) (peer : String) : Prop :=
  ∀ id connection, s.connections.lookup id = some connection → connection.peer = peer →
  ∀ id' connection', s.connections.lookup id' = some connection' → connection'.peer = peer →
    connection.direction = connection'.direction → id = id'

/-- A stream that a refresh does not touch: the preferred one of its peer. -/
structure Sight.Preferred (s : Sight) (peer : String) (id : ConnectionId) : Prop where
  tracked : ∃ connection, s.connections.lookup id = some connection ∧ connection.peer = peer
  isOpen : s.isOpen id = true
  prefers : s.prefers peer id = true

namespace Sight

variable {s : Sight} {peer : String} {id : ConnectionId}

theorem lookup_retained {connection : TrackedConnection} :
    s.retained.connections.lookup id = some connection ↔
      s.connections.lookup id = some connection ∧ (s.state id).isSome = true :=
  Finmap.lookup_filter_eq_some

theorem isSome_of_isOpen (h : s.isOpen id = true) : (s.state id).isSome = true := by
  rw [View.isOpen, Bool.or_eq_true, beq_iff_eq, beq_iff_eq] at h
  obtain h | h := h
  · rw [h, Option.isSome_some]
  · rw [h, Option.isSome_some]

theorem mem_openStreams_retained : id ∈ s.retained.openStreams peer ↔
    s.isOpen id = true ∧
      ∃ connection, s.connections.lookup id = some connection ∧ connection.peer = peer := by
  rw [View.mem_openStreams]
  refine and_congr_right fun hopen => exists_congr fun connection => and_congr_left fun _ => ?_
  exact lookup_retained.trans (and_iff_left (isSome_of_isOpen hopen))

theorem prefers_of_lookup {connection : TrackedConnection}
    (h : s.connections.lookup id = some connection) :
    s.prefers peer id = ((connection.direction == .outbound) == decide (s.localNpub < peer)) := by
  rw [View.prefers, h, Option.any_some]

theorem prefers_retained (hopen : id ∈ s.retained.openStreams peer) :
    s.retained.prefers peer id = s.prefers peer id := by
  obtain ⟨hopen, connection, hlookup, -⟩ := mem_openStreams_retained.mp hopen
  rw [prefers_of_lookup (lookup_retained.mpr ⟨hlookup, isSome_of_isOpen hopen⟩),
    prefers_of_lookup hlookup]
  rfl

theorem direction_eq_of_preferred {prefer : Bool} {direction direction' : Direction}
    (h : ((direction == .outbound) == prefer) = ((direction' == .outbound) == prefer)) :
    direction = direction' := by
  cases direction <;> cases direction' <;> cases prefer <;> trivial

/-- Two open streams of a peer that are preferred alike are one. -/
theorem OneEach.eq_of_prefers (h : s.OneEach peer) {id' : ConnectionId}
    (hid : id ∈ s.retained.openStreams peer) (hid' : id' ∈ s.retained.openStreams peer)
    (hprefers : s.retained.prefers peer id = s.retained.prefers peer id') : id = id' := by
  rw [prefers_retained hid, prefers_retained hid'] at hprefers
  obtain ⟨-, connection, hlookup, hpeer⟩ := mem_openStreams_retained.mp hid
  obtain ⟨-, connection', hlookup', hpeer'⟩ := mem_openStreams_retained.mp hid'
  refine h id connection hlookup hpeer id' connection' hlookup' hpeer' ?_
  rw [prefers_of_lookup hlookup, prefers_of_lookup hlookup'] at hprefers
  exact direction_eq_of_preferred hprefers

/-- Only a stream in the other direction is aborted. -/
theorem OneEach.prefers_extra (h : s.OneEach peer) {connection : TrackedConnection}
    (hextra : id ∈ s.retained.extras) (hlookup : s.connections.lookup id = some connection)
    (hpeer : connection.peer = peer) : s.prefers peer id = false := by
  obtain ⟨peer', hdrop⟩ := View.mem_extras.mp hextra
  have hopen := View.mem_peerStreams.mp (List.mem_of_mem_drop hdrop)
  obtain ⟨-, connection', hlookup', rfl⟩ := mem_openStreams_retained.mp hopen
  obtain rfl : connection' = connection := Option.some.inj (hlookup'.symm.trans hlookup)
  subst hpeer
  rw [← prefers_retained hopen]
  exact (View.mem_drop_peerStreams (fun _ hid _ hid' => h.eq_of_prefers hid hid') hdrop).2

theorem OneEach.lookup_nextActive (h : s.OneEach peer) (hid : s.Preferred peer id) :
    s.retained.nextActive.lookup peer = some id := by
  have hopen : id ∈ s.retained.openStreams peer :=
    mem_openStreams_retained.mpr ⟨hid.isOpen, hid.tracked⟩
  have hprefers : s.retained.prefers peer id = true := (prefers_retained hopen).trans hid.prefers
  refine View.lookup_nextActive_of_prefers (fun id' hid' hprefers' => ?_) hopen hprefers
  exact h.eq_of_prefers hid' hopen (hprefers'.trans hprefers.symm)

end Sight

namespace Refreshed

variable {s s' : Sight} {ok : Bool} {peer : String} {id : ConnectionId}

/-- A refresh calls `abort` for streams in the other direction only. -/
theorem exists_aborts (h : Refreshed s ok s') (hone : s.OneEach peer) :
    ∃ attempted, s'.aborts = s.aborts ++ attempted ∧ ∀ id ∈ attempted, ∀ connection,
      s.connections.lookup id = some connection → connection.peer = peer →
        s.prefers peer id = false := by
  cases h with
  | unchanged h => exact ⟨[], (List.append_nil _).symm, nofun⟩
  | failed hextras hdedup =>
    refine ⟨_, hdedup.aborts, fun id hid connection hlookup hpeer => ?_⟩
    exact hone.prefers_extra (hextras.subset hid) hlookup hpeer
  | selected ok hextras hdedup =>
    refine ⟨_, hdedup.aborts, fun id hid connection hlookup hpeer => ?_⟩
    exact hone.prefers_extra (hextras.subset hid) hlookup hpeer

theorem tracked (h : Refreshed s ok s') {connection : TrackedConnection}
    (hlookup : s'.connections.lookup id = some connection) :
    s.connections.lookup id = some connection := by
  cases h with
  | unchanged h => exact hlookup
  | failed hextras hdedup => exact (Sight.lookup_retained.mp (hdedup.tracked _ _ hlookup)).1
  | selected ok hextras hdedup => exact (Sight.lookup_retained.mp (hdedup.tracked _ _ hlookup)).1

theorem localNpub (h : Refreshed s ok s') : s'.localNpub = s.localNpub := by
  cases h with
  | unchanged h => rfl
  | failed hextras hdedup => exact hdedup.localNpub
  | selected ok hextras hdedup => exact hdedup.localNpub

/-- What a refresh leaves of the preferred stream of a peer, and selects. -/
theorem preferred (h : Refreshed s ok s') (hone : s.OneEach peer) (hid : s.Preferred peer id) :
    s'.connections.lookup id = s.connections.lookup id ∧ s'.state id = s.state id ∧
      (ok = true ∨ s.active.lookup peer = some id → s'.active.lookup peer = some id) := by
  obtain ⟨connection, hlookup, hpeer⟩ := hid.tracked
  have hretained : s.retained.connections.lookup id = s.connections.lookup id :=
    (Sight.lookup_retained.mpr ⟨hlookup, Sight.isSome_of_isOpen hid.isOpen⟩).trans hlookup.symm
  -- it is no extra stream
  have hnot : id ∉ s.retained.extras := by
    intro hextra
    exact absurd ((hone.prefers_extra hextra hlookup hpeer).symm.trans hid.prefers) Bool.false_ne_true
  cases h with
  | unchanged hall =>
    refine ⟨rfl, rfl, fun _ => ?_⟩
    rw [← hpeer]
    exact (hall id connection hlookup).2
  | failed hextras hdedup =>
    have hkept := fun hmem => hnot (hextras.subset hmem)
    refine ⟨(hdedup.connections id hkept).trans hretained, hdedup.state id hkept, fun hactive => ?_⟩
    rw [hdedup.active]
    exact hactive.resolve_left Bool.false_ne_true
  | selected ok hextras hdedup =>
    have hkept := fun hmem => hnot (hextras.subset hmem)
    refine ⟨(hdedup.connections id hkept).trans hretained, hdedup.state id hkept, fun _ => ?_⟩
    exact hone.lookup_nextActive hid

end Refreshed

/-! ## The wire driver -/

namespace WireTcpDriver

open WireM

variable {τ : Type} {config : WireConfig τ} (log : AbortLog config.endpoint.toTcpEndpoint)

/-- What the driver sees. -/
def sight (d : WireTcpDriver τ) : Sight where
  toView := d.view config
  active := d.active
  aborts := log.aborts d.tcp

/-- The step of the loop over the extra streams. -/
def deduplicate (config : WireConfig τ) (id : ConnectionId) : WireM τ Unit := do
  callTcp "deduplicate TCP/FIPS pubsub stream" fun tcp => config.endpoint.abort tcp id
  modifyDriver fun d => { d with connections := d.connections.erase id }

theorem deduplicate_sight (id : ConnectionId) (t : WireTurn τ) :
    Deduplicated [id] (t.driver.sight log) ((deduplicate config id t).2.driver.sight log) := by
  have habort := fun connections' =>
    Deduplicated.abort (s := t.driver.sight log) log id connections' rfl rfl
  rw [deduplicate, callTcp_bind]
  rcases hcall : config.endpoint.abort t.driver.tcp id with ⟨error | _, tcp⟩
  · rw [hcall] at habort
    exact habort _ (.inl rfl)
  · rw [hcall] at habort
    exact habort _ (.inr rfl)

/-- The loop ends at the first stream that it cannot abort. -/
theorem forEach_deduplicate_sight (ids : List ConnectionId) {t t' : WireTurn τ}
    {result : Except PubsubError Unit} (hrun : forEach (deduplicate config) ids t = (result, t')) :
    ∃ attempted, attempted <+: ids ∧
      Deduplicated attempted (t.driver.sight log) (t'.driver.sight log) := by
  induction ids generalizing t with
  | nil =>
    cases hrun
    exact ⟨[], List.nil_prefix, .refl _⟩
  | cons id ids ih =>
    have hfirst := deduplicate_sight log id t
    rw [forEach, bind_apply] at hrun
    rcases hdedup : deduplicate config id t with ⟨error | _, t₁⟩
    · rw [hdedup] at hrun hfirst
      cases hrun
      exact ⟨[id], List.prefix_append [id] ids, hfirst⟩
    · rw [hdedup] at hrun hfirst
      obtain ⟨attempted, hbegin, hrest⟩ := ih hrun
      exact ⟨id :: attempted, List.cons_prefix_cons.mpr ⟨rfl, hbegin⟩, hfirst.cons hrest⟩

theorem restartQueue_sight (d : WireTcpDriver τ) (peer : String) :
    (d.restartQueue peer).sight log = d.sight log := by
  unfold restartQueue
  split
  · rfl
  · rfl

theorem forEach_activatePeer_sight (next : Table ConnectionId) (peers : List String)
    (t : WireTurn τ) :
    (forEach (activatePeer next) peers t).2.driver.sight log = t.driver.sight log := by
  have hstep : ∀ peer, Preserves (fun t' : WireTurn τ => t'.driver.sight log = t.driver.sight log)
      (activatePeer next peer) :=
    fun peer _ h => (restartQueue_sight log _ peer).trans h
  exact preserves_forEach hstep peers t rfl

theorem isUnchanged_sight {d : WireTcpDriver τ} (h : d.isUnchanged config = true)
    {id : ConnectionId} {connection : TrackedConnection}
    (htracked : d.connections.lookup id = some connection) :
    config.endpoint.state d.tcp id = some .established ∧
      d.active.lookup connection.peer = some id := by
  have hall := (of_decide_eq_true h).2
  have hmem : id ∈ d.connections.keys.ascending := by
    rw [Finset.mem_ascending, Finmap.mem_keys, Finmap.mem_iff]
    exact ⟨connection, htracked⟩
  have hid := List.all_eq_true.mp hall id hmem
  rw [htracked, Option.any_some, Bool.and_eq_true, beq_iff_eq, beq_iff_eq] at hid
  exact hid

/-- The wire driver refines the specification of a refresh. -/
theorem refreshActive_sight (t : WireTurn τ) :
    Refreshed (t.driver.sight log) (refreshActive config t).1.isOk
      ((refreshActive config t).2.driver.sight log) := by
  rw [refreshActive, getDriver_bind]
  by_cases hunchanged : t.driver.isUnchanged config = true
  · rw [if_pos hunchanged]
    exact .unchanged fun id connection htracked => isUnchanged_sight hunchanged htracked
  rw [if_neg hunchanged, modifyDriver_bind, getDriver_bind, bind_apply]
  split
  · rename_i heq
    obtain ⟨attempted, hextras, hdedup⟩ := forEach_deduplicate_sight log _ heq
    exact .failed hextras hdedup
  · rename_i t₁ heq
    obtain ⟨attempted, hextras, hdedup⟩ := forEach_deduplicate_sight log _ heq
    rw [modifyDriver_bind]
    generalize Except.isOk _ = ok
    have hselected := @Refreshed.selected (t.driver.sight log) (t₁.driver.sight log) attempted ok
      hextras hdedup
    rw [bind_pure_state, forEach_activatePeer_sight]
    exact hselected

end WireTcpDriver

end WireTcp

/-! ## The INV/WANT driver -/

variable {nostr : NostrCrate} {σ τ : Type} {config : DriverConfig nostr σ τ}

namespace TurnM

theorem bind_apply {α β : Type} (x : TurnM config α) (f : α → TurnM config β) (t : Turn config) :
    (x >>= f) t = match x t with
      | (.error error, t) => (.error error, t)
      | (.ok a, t) => f a t := rfl

theorem getDriver_bind {β : Type} (f : FipsInvWantTcpDriver config → TurnM config β)
    (t : Turn config) : (getDriver >>= f) t = f t.driver t := rfl

theorem modifyDriver_bind {β : Type}
    (change : FipsInvWantTcpDriver config → FipsInvWantTcpDriver config) (f : Unit → TurnM config β)
    (t : Turn config) :
    (modifyDriver change >>= f) t = f () { t with driver := change t.driver } := rfl

end TurnM

namespace FipsInvWantTcpDriver

open TurnM WireTcp

variable (log : AbortLog config.tcp)

/-- What the driver sees. -/
def sight (d : FipsInvWantTcpDriver config) : Sight where
  localNpub := config.localNpub
  state := config.tcp.state d.tcp
  connections := d.connections
  active := d.active
  aborts := log.aborts d.tcp

/-- The step of the loop over the extra streams. -/
def deduplicate (id : ConnectionId) : TurnM config Unit := do
  callTcp "deduplicate TCP/FIPS pubsub stream" fun tcp => config.tcp.abort tcp id
  modifyDriver fun d => { d with connections := d.connections.erase id }

theorem deduplicate_sight (id : ConnectionId) (t : Turn config) :
    Deduplicated [id] (t.driver.sight log) ((deduplicate id t).2.driver.sight log) := by
  have habort := fun connections' =>
    Deduplicated.abort (s := t.driver.sight log) log id connections' rfl rfl
  rcases hcall : config.tcp.abort t.driver.tcp id with ⟨error | _, tcp⟩
  · rw [hcall] at habort
    rw [deduplicate, bind_of_error (by rw [callTcp, hcall])]
    exact habort _ (.inl rfl)
  · rw [hcall] at habort
    rw [deduplicate, bind_of_ok (by rw [callTcp, hcall])]
    exact habort _ (.inr rfl)

/-- The loop ends at the first stream that it cannot abort. -/
theorem forEach_deduplicate_sight (ids : List ConnectionId) {t t' : Turn config}
    {result : Except PubsubError Unit} (hrun : forEach deduplicate ids t = (result, t')) :
    ∃ attempted, attempted <+: ids ∧
      Deduplicated attempted (t.driver.sight log) (t'.driver.sight log) := by
  induction ids generalizing t with
  | nil =>
    cases hrun
    exact ⟨[], List.nil_prefix, .refl _⟩
  | cons id ids ih =>
    have hfirst := deduplicate_sight log id t
    rw [forEach] at hrun
    rcases hdedup : deduplicate id t with ⟨error | _, t₁⟩
    · rw [bind_of_error hdedup] at hrun
      rw [hdedup] at hfirst
      cases hrun
      exact ⟨[id], List.prefix_append [id] ids, hfirst⟩
    · rw [bind_of_ok hdedup] at hrun
      rw [hdedup] at hfirst
      obtain ⟨attempted, hbegin, hrest⟩ := ih hrun
      exact ⟨id :: attempted, List.cons_prefix_cons.mpr ⟨rfl, hbegin⟩, hfirst.cons hrest⟩

theorem applyActions_sight (actions : List (FipsInvWantStreamAction nostr)) (t : Turn config) :
    (applyActions actions t).2.driver.sight log = t.driver.sight log := by
  unfold applyActions
  dsimp only
  split
  · rfl
  · rfl

theorem applyCall_sight (event : FipsInvWantStream config.stream → TurnEvent config)
    (call : FipsInvWantStream config.stream →
      Except PubsubError (List (FipsInvWantStreamAction nostr)) × FipsInvWantStream config.stream)
    (t : Turn config) :
    (applyCall event call t).2.driver.sight log = t.driver.sight log := by
  have hrun : TurnM.callStream event call t = ((call t.driver.stream).1,
      { t with
        driver := { t.driver with stream := (call t.driver.stream).2 }
        trace := t.trace ++ [event t.driver.stream] }) := rfl
  rcases hcall : call t.driver.stream with ⟨error | actions, stream⟩
  · rw [hcall] at hrun
    rw [applyCall, bind_of_error hrun]
    rfl
  · rw [hcall] at hrun
    rw [applyCall, bind_of_ok hrun, applyActions_sight]
    rfl

theorem activatePeer_sight (order : RouteOrder) (nowMs : ℕ) (peer : String) (t : Turn config) :
    (activatePeer order nowMs peer t).2.driver.sight log = t.driver.sight log := by
  rw [activatePeer, modifyDriver_bind, getDriver_bind]
  split
  · exact applyCall_sight log _ _ _
  · rfl

theorem forEach_activatePeer_sight (order : RouteOrder) (nowMs : ℕ) (peers : List String)
    (t : Turn config) :
    (forEach (activatePeer order nowMs) peers t).2.driver.sight log = t.driver.sight log := by
  induction peers generalizing t with
  | nil => rfl
  | cons peer peers ih =>
    have hfirst := activatePeer_sight log order nowMs peer t
    rw [forEach]
    rcases hrun : activatePeer order nowMs peer t with ⟨error | _, t₁⟩
    · rw [hrun] at hfirst
      rw [bind_of_error hrun]
      exact hfirst
    · rw [hrun] at hfirst
      rw [bind_of_ok hrun]
      exact (ih t₁).trans hfirst

/-- The INV/WANT driver refines the specification of a refresh. It has no fast path. -/
theorem refreshActive_sight (order : RouteOrder) (nowMs : ℕ) (t : Turn config) :
    Refreshed (t.driver.sight log) (refreshActive order nowMs t).1.isOk
      ((refreshActive order nowMs t).2.driver.sight log) := by
  rw [refreshActive, modifyDriver_bind, getDriver_bind, bind_apply]
  split
  · rename_i heq
    obtain ⟨attempted, hextras, hdedup⟩ := forEach_deduplicate_sight log _ heq
    exact .failed hextras hdedup
  · rename_i t₁ heq
    obtain ⟨attempted, hextras, hdedup⟩ := forEach_deduplicate_sight log _ heq
    rw [modifyDriver_bind]
    generalize Except.isOk _ = ok
    have hselected := @Refreshed.selected (t.driver.sight log) (t₁.driver.sight log) attempted ok
      hextras hdedup
    rw [forEach_activatePeer_sight]
    exact hselected

end FipsInvWantTcpDriver

end NostrPubsub
