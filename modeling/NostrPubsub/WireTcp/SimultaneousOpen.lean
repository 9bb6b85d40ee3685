import Mathlib.Data.Fintype.Defs
import NostrPubsub.WireTcp.Refresh

/-!
# Simultaneous open

Two drivers, of one kind or of both, may each open a connection to the other. Each side tracks the
connections as it opens or accepts them, sees them open when its adapter says so, and refreshes when
it likes; what one side did reaches the other late or never. `Step` has the moves of both, in any
order. A refresh is `refresh_active` of the side's driver; all else that a side does is left open, as
long as it neither aborts nor closes a connection of the two.

The npubs of the two decide: the connection opened by the smaller one is never aborted to
deduplicate, and a side that has seen it has it selected.
-/

namespace NostrPubsub.WireTcp

/-- The two sides. -/
inductive Side where
  | a
  | b
  deriving DecidableEq

instance : Fintype Side := ⟨{.a, .b}, fun s => by cases s <;> decide⟩

/-- The other side. -/
def Side.other : Side → Side
  | .a => .b
  | .b => .a

theorem Side.eq_or_eq_other (s t : Side) : t = s ∨ t = s.other := by
  cases s <;> cases t <;> decide

theorem Side.other_other (s : Side) : s.other.other = s := by
  cases s <;> rfl

/-! ## The parties -/

/-- A driver and its configuration. -/
inductive Party where
  | wire {τ : Type} (config : WireConfig τ) (log : AbortLog config.endpoint.toTcpEndpoint)
  | invWant {nostr : NostrCrate} {σ τ : Type} (config : DriverConfig nostr σ τ)
      (log : AbortLog config.tcp)

namespace Party

/-- The state of the driver. -/
def State : Party → Type
  | @wire τ _ _ => WireTcpDriver τ
  | invWant config _ => FipsInvWantTcpDriver config

/-- The npub of the driver. -/
def npub : Party → String
  | wire config _ => config.localNpub
  | invWant config _ => config.localNpub

/-- What the driver sees. -/
def sight : (party : Party) → party.State → Sight
  | wire _ log, d => WireTcpDriver.sight log d
  | invWant _ log, d => FipsInvWantTcpDriver.sight log d

/-- `refresh_active`: whether it succeeded, and the driver after it. -/
def refresh (order : RouteOrder) (nowMs : ℕ) : (party : Party) → party.State → Bool × party.State
  | wire config _, d =>
    let (result, t) := WireTcpDriver.refreshActive config { driver := d, trace := [] }
    (result.isOk, t.driver)
  | invWant _ _, d =>
    let (result, t) := FipsInvWantTcpDriver.refreshActive order nowMs
      { driver := d, report := {}, trace := [] }
    (result.isOk, t.driver)

theorem localNpub_sight (party : Party) (d : party.State) : (party.sight d).localNpub = party.npub :=
  match party with
  | wire _ _ => rfl
  | invWant _ _ => rfl

/-- Both kinds of driver refine the specification of a refresh. -/
theorem refreshed_refresh (order : RouteOrder) (nowMs : ℕ) (party : Party) (d : party.State) :
    Refreshed (party.sight d) (party.refresh order nowMs d).1
      (party.sight (party.refresh order nowMs d).2) :=
  match party with
  | wire _ log => WireTcpDriver.refreshActive_sight log { driver := d, trace := [] }
  | invWant _ log =>
    FipsInvWantTcpDriver.refreshActive_sight log order nowMs { driver := d, report := {}, trace := [] }

end Party

/-! ## Both sides -/

variable (parties : Side → Party)

/-- The side with the smaller npub. -/
def smaller : Side := if (parties .a).npub < (parties .b).npub then .a else .b

/-- The side with the larger npub. -/
def larger : Side := (smaller parties).other

/-- Both sides, and what happened to the two connections. -/
structure World where
  driver : (s : Side) → (parties s).State
  /-- The id that a side has for the connection that a side opened. -/
  id : Side → Side → Option ConnectionId
  /-- The connections that a side called `abort` for to deduplicate. -/
  deduplicated : Side → List (ConnectionId × TrackedConnection)
  /-- The sides that have seen the connection opened by the smaller npub. -/
  seen : Side → Prop

namespace World

variable {parties}

/-- What a side sees. -/
def sight (w : World parties) (s : Side) : Sight := (parties s).sight (w.driver s)

/-- A side called `abort` for the connection that `opener` opened, to deduplicate. -/
def Aborted (w : World parties) (s opener : Side) : Prop :=
  ∃ id connection, w.id s opener = some id ∧ (id, connection) ∈ w.deduplicated s ∧
    connection.peer = (parties s.other).npub

/-- A side has the connection opened by the smaller npub among its open ones. -/
def Sees (w : World parties) (s : Side) : Prop :=
  ∃ id, w.id s (smaller parties) = some id ∧ id ∈ (w.sight s).connections ∧
    (w.sight s).isOpen id = true

/-- The driver of a side changes. -/
def setDriver (w : World parties) (s : Side) (d : (parties s).State) : World parties :=
  { w with driver := Function.update w.driver s d }

/-- A side knows a connection under an id. -/
def setId (w : World parties) (s opener : Side) (id : ConnectionId) : World parties :=
  { w with id := Function.update w.id s (Function.update (w.id s) opener (some id)) }

/-- A side refreshes. -/
def refresh (w : World parties) (s : Side) (order : RouteOrder) (nowMs : ℕ) : World parties :=
  let (ok, d) := (parties s).refresh order nowMs (w.driver s)
  let aborts := ((parties s).sight d).aborts.drop (w.sight s).aborts.length
  { w.setDriver s d with
    deduplicated := Function.update w.deduplicated s
      (w.deduplicated s ++ aborts.filterMap fun id =>
        ((w.sight s).connections.lookup id).map fun connection => (id, connection))
    seen := Function.update w.seen s (w.seen s ∨ ok = true ∧ w.Sees s) }

/-- What a side does, its refreshes apart, leaves the selected stream of the other, and an open
connection stays open unless the other side has aborted it. -/
structure Leaves (w : World parties) (s : Side) (after : Sight) : Prop where
  active : after.active.lookup (parties s.other).npub
    = (w.sight s).active.lookup (parties s.other).npub
  isOpen : ∀ opener id, w.id s opener = some id → (w.sight s).isOpen id = true →
    after.isOpen id = true ∨ w.Aborted s.other opener

end World

/-- One move of a side. -/
inductive Step : World parties → World parties → Prop where
  /-- The side opens its connection. -/
  | opens {w : World parties} (s : Side) (id : ConnectionId) (d : (parties s).State)
      (hnone : w.id s s = none) (hfresh : ∀ opener, w.id s opener ≠ some id)
      (huntracked : id ∉ (w.sight s).connections)
      (htracked : ((parties s).sight d).connections = (w.sight s).connections.insert id
        { peer := (parties s.other).npub, direction := .outbound })
      (hleaves : w.Leaves s ((parties s).sight d)) :
      Step w ((w.setDriver s d).setId s s id)
  /-- The side accepts the connection that the other opened. -/
  | accepts {w : World parties} (s : Side) (id : ConnectionId) (d : (parties s).State)
      (hopened : w.id s.other s.other ≠ none) (hnone : w.id s s.other = none)
      (hfresh : ∀ opener, w.id s opener ≠ some id) (huntracked : id ∉ (w.sight s).connections)
      (htracked : ((parties s).sight d).connections = (w.sight s).connections.insert id
        { peer := (parties s.other).npub, direction := .inbound })
      (hleaves : w.Leaves s ((parties s).sight d)) :
      Step w ((w.setDriver s d).setId s s.other id)
  /-- The side refreshes. -/
  | refreshes {w : World parties} (s : Side) (order : RouteOrder) (nowMs : ℕ) :
      Step w (w.refresh s order nowMs)
  /-- All else that the side does and that its adapter tells it. It tracks no further connection of
  the other side. -/
  | works {w : World parties} (s : Side) (d : (parties s).State)
      (hkept : ∀ opener id, w.id s opener = some id →
        ((parties s).sight d).connections.lookup id = (w.sight s).connections.lookup id)
      (htracked : ∀ id connection, ((parties s).sight d).connections.lookup id = some connection →
        connection.peer = (parties s.other).npub → ∃ opener, w.id s opener = some id)
      (hleaves : w.Leaves s ((parties s).sight d)) :
      Step w (w.setDriver s d)

/-- Neither side has opened a connection yet. -/
structure World.Initial (w : World parties) : Prop where
  id : ∀ s opener, w.id s opener = none
  untracked : ∀ s id connection, (w.sight s).connections.lookup id = some connection →
    connection.peer ≠ (parties s.other).npub
  deduplicated : ∀ s, w.deduplicated s = []
  seen : ∀ s, ¬ w.seen s

/-! ## Opening and accepting

`opens` and `accepts` track a connection as the calls of the wire driver do: `connect_peer` as an
outbound one, `accept_connections` as an inbound one, and neither selects a stream. The calls of the
other driver are written the same. -/

/-- The connections are as before, but for some that are new or tracked anew in one direction. -/
def Tracks (direction : Direction) (before after : Connections) : Prop :=
  ∀ id, after.lookup id = before.lookup id ∨
    ∃ peer, after.lookup id = some { peer, direction }

theorem Tracks.insert {direction : Direction} {before after : Connections}
    (h : Tracks direction before after) (id : ConnectionId) (peer : String) :
    Tracks direction before (after.insert id { peer, direction }) := by
  intro other
  by_cases hid : other = id
  · subst hid
    exact .inr ⟨peer, Finmap.lookup_insert _⟩
  · rw [Finmap.lookup_insert_of_ne _ hid]
    exact h other

namespace WireTcpDriver

open WireM

variable {τ : Type} {config : WireConfig τ} {before : Connections} {active : Table ConnectionId}

/-- What `opens` says of a side is what `connect_peer` does: it tracks outbound connections only, and
selects no stream. -/
theorem connectPeer_tracks (peer : String) (isWaiting : Bool) (nowMs : ℕ) :
    Preserves (fun t => WireTcp.Tracks .outbound before t.driver.connections ∧ t.driver.active = active)
      (connectPeer config peer isWaiting nowMs) := by
  have hcheck : ∀ result : Except PubsubError Unit,
      Preserves (fun t => WireTcp.Tracks .outbound before t.driver.connections ∧ t.driver.active = active)
        (check result : WireM τ Unit) := by
    rintro (error | _)
    · exact preserves_fail error
    · exact preserves_pure ()
  refine preserves_getDriver.bind fun d => (hcheck _).bind fun _ => ?_
  refine preserves_ite (preserves_pure ()) (preserves_ite (preserves_fail _)
    (preserves_ite (preserves_pure ()) ?_))
  refine (hcheck _).bind fun _ => ?_
  refine Preserves.bind (fun _ h => h) fun id => ?_
  exact fun t h => ⟨h.1.insert id peer, h.2⟩

/-- What `accepts` says of a side is what `accept_connections` does: it tracks inbound connections only,
and selects no stream. -/
theorem acceptConnections_tracks (backlog : ℕ) :
    Preserves (fun t => WireTcp.Tracks .inbound before t.driver.connections ∧ t.driver.active = active)
      (acceptConnections config backlog) := by
  induction backlog with
  | zero => exact preserves_pure ()
  | succ backlog ih =>
    refine Preserves.bind (fun _ h => h) fun accepted => ?_
    cases accepted with
    | none => exact preserves_pure ()
    | some id =>
      refine preserves_getDriver.bind fun d => ?_
      cases config.endpoint.peer d.tcp id with
      | none => exact preserves_fail _
      | some peer =>
        refine preserves_getDriver.bind fun d => ?_
        cases d.ensurePeerCapacity config peer with
        | error _ => exact Preserves.bind (fun _ h => h) fun _ => ih
        | ok _ =>
          refine Preserves.bind (fun t h => ?_) fun _ => ih
          rw [modifyDriver]
          dsimp only
          split
          · exact h
          · exact ⟨h.1.insert id peer, h.2⟩

end WireTcpDriver

/-! ## The invariant -/

variable {parties}

/-- The direction in which a side tracks the connection that `opener` opened. -/
def directionOf (s opener : Side) : Direction := if opener = s then .outbound else .inbound

/-- What holds of a side in every reachable world: of what it sees, the ids it has for the two
connections, what it aborted, and whether it has seen the connection opened by the smaller npub. -/
structure SideInv (parties : Side → Party) (s : Side) (sight : Sight)
    (id : Side → Option ConnectionId) (deduplicated : List (ConnectionId × TrackedConnection))
    (seen : Prop) : Prop where
  localNpub : sight.localNpub = (parties s).npub
  id_inj : ∀ opener opener' i, id opener = some i → id opener' = some i → opener = opener'
  /-- The tracked connections of the other side are the two, each with its direction. -/
  tracked : ∀ i connection, sight.connections.lookup i = some connection →
    connection.peer = (parties s.other).npub →
    ∃ opener, id opener = some i ∧ connection.direction = directionOf s opener
  peer : ∀ opener i connection, id opener = some i → sight.connections.lookup i = some connection →
    connection.peer = (parties s.other).npub
  /-- What was aborted is the connection opened by the larger npub. -/
  deduplicated : ∀ i connection, (i, connection) ∈ deduplicated →
    connection.peer = (parties s.other).npub → id (larger parties) = some i
  /-- A side that has seen the connection opened by the smaller npub has it selected. -/
  seen : seen → ∃ i, id (smaller parties) = some i ∧ i ∈ sight.connections ∧
    sight.isOpen i = true ∧ sight.active.lookup (parties s.other).npub = some i

theorem smaller_ne_larger : smaller parties ≠ larger parties := by
  unfold larger
  cases smaller parties <;> decide

theorem directionOf_inj {s opener opener' : Side} (h : directionOf s opener = directionOf s opener') :
    opener = opener' := by
  cases s <;> cases opener <;> cases opener' <;> first | rfl | cases h

theorem directionOf_eq_outbound {s opener : Side} : directionOf s opener = .outbound ↔ opener = s := by
  unfold directionOf
  split
  · rename_i heq
    exact iff_of_true rfl heq
  · rename_i hne
    exact iff_of_false nofun hne

theorem directionOf_other (s : Side) : directionOf s s.other = .inbound := by
  cases s <;> rfl

theorem lt_iff_eq_smaller (hnpubs : (parties .a).npub ≠ (parties .b).npub) (s : Side) :
    (parties s).npub < (parties s.other).npub ↔ s = smaller parties := by
  unfold smaller
  cases s with
  | a =>
    change (parties .a).npub < (parties .b).npub ↔ _
    split
    · rename_i hlt
      exact iff_of_true hlt rfl
    · rename_i hlt
      exact iff_of_false hlt nofun
  | b =>
    change (parties .b).npub < (parties .a).npub ↔ _
    split
    · rename_i hlt
      exact iff_of_false (lt_asymm hlt) nofun
    · rename_i hlt
      exact iff_of_true (lt_of_le_of_ne (not_lt.mp hlt) hnpubs.symm) rfl

/-- Each side prefers the connection that the smaller npub opened. -/
theorem preferred_iff_smaller (hnpubs : (parties .a).npub ≠ (parties .b).npub) (s opener : Side) :
    ((directionOf s opener == .outbound) == decide ((parties s).npub < (parties s.other).npub)) = true
      ↔ opener = smaller parties := by
  rw [beq_iff_eq, Bool.eq_iff_iff, beq_iff_eq, decide_eq_true_iff, directionOf_eq_outbound,
    lt_iff_eq_smaller hnpubs]
  generalize smaller parties = t
  cases s <;> cases opener <;> cases t <;> decide

namespace SideInv

variable {s : Side} {sight after : Sight} {id : Side → Option ConnectionId}
  {deduplicated : List (ConnectionId × TrackedConnection)} {seen : Prop}

theorem oneEach (h : SideInv parties s sight id deduplicated seen) :
    sight.OneEach (parties s.other).npub := by
  intro i connection hlookup hpeer i' connection' hlookup' hpeer' hdirection
  obtain ⟨opener, hid, hopener⟩ := h.tracked i connection hlookup hpeer
  obtain ⟨opener', hid', hopener'⟩ := h.tracked i' connection' hlookup' hpeer'
  obtain rfl := directionOf_inj (hopener.symm.trans (hdirection.trans hopener'))
  exact Option.some.inj (hid.symm.trans hid')

theorem prefers_iff (h : SideInv parties s sight id deduplicated seen)
    (hnpubs : (parties .a).npub ≠ (parties .b).npub) {opener : Side} {i : ConnectionId}
    (hid : id opener = some i) {connection : TrackedConnection}
    (hlookup : sight.connections.lookup i = some connection) :
    sight.prefers (parties s.other).npub i = true ↔ opener = smaller parties := by
  obtain ⟨opener', hid', hdirection⟩ :=
    h.tracked i connection hlookup (h.peer opener i connection hid hlookup)
  obtain rfl := h.id_inj opener opener' i hid hid'
  rw [Sight.prefers_of_lookup hlookup, hdirection, h.localNpub]
  exact preferred_iff_smaller hnpubs s opener

theorem preferred (h : SideInv parties s sight id deduplicated seen)
    (hnpubs : (parties .a).npub ≠ (parties .b).npub) {i : ConnectionId}
    (hid : id (smaller parties) = some i) (hmem : i ∈ sight.connections)
    (hopen : sight.isOpen i = true) : sight.Preferred (parties s.other).npub i := by
  obtain ⟨connection, hlookup⟩ := Finmap.mem_iff.mp hmem
  exact ⟨⟨connection, hlookup, h.peer _ i connection hid hlookup⟩, hopen,
    (h.prefers_iff hnpubs hid hlookup).mpr rfl⟩

/-- A side tracks one of the two connections. -/
theorem track (h : SideInv parties s sight id deduplicated seen) {opener : Side} {i : ConnectionId}
    (hnone : id opener = none) (hfresh : ∀ opener', id opener' ≠ some i)
    (huntracked : i ∉ sight.connections) (hnpub : after.localNpub = (parties s).npub)
    (htracked : after.connections = sight.connections.insert i
      { peer := (parties s.other).npub, direction := directionOf s opener })
    (hactive : after.active.lookup (parties s.other).npub
      = sight.active.lookup (parties s.other).npub)
    (hopen : ∀ j, id (smaller parties) = some j → sight.isOpen j = true → after.isOpen j = true) :
    SideInv parties s after (Function.update id opener (some i)) deduplicated seen := by
  -- The new connection is a fresh id under the opener that had none, so the other pairs of opener
  -- and id stay as they were.
  have hid_of : ∀ {opener' j}, id opener' = some j →
      Function.update id opener (some i) opener' = some j := by
    intro opener' j hj
    have hne : opener' ≠ opener := by
      rintro rfl
      rw [hnone] at hj
      cases hj
    rw [Function.update_of_ne hne, hj]
  have hid_cases : ∀ {opener' j}, Function.update id opener (some i) opener' = some j →
      (opener' = opener ∧ j = i) ∨ (id opener' = some j ∧ j ≠ i) := by
    intro opener' j hj
    by_cases hopener : opener' = opener
    · subst hopener
      rw [Function.update_self] at hj
      exact .inl ⟨rfl, (Option.some.inj hj).symm⟩
    · rw [Function.update_of_ne hopener] at hj
      exact .inr ⟨hj, fun heq => hfresh opener' (heq ▸ hj)⟩
  have hlookup_self : after.connections.lookup i
      = some { peer := (parties s.other).npub, direction := directionOf s opener } := by
    rw [htracked, Finmap.lookup_insert]
  have hlookup_of_ne : ∀ {j}, j ≠ i → after.connections.lookup j = sight.connections.lookup j := by
    intro j hj
    rw [htracked, Finmap.lookup_insert_of_ne _ hj]
  constructor
  case localNpub => exact hnpub
  case id_inj =>
    intro op op' j hj hj'
    rcases hid_cases hj with ⟨rfl, hi⟩ | ⟨hold, hne⟩
    · rcases hid_cases hj' with ⟨rfl, -⟩ | ⟨-, hne'⟩
      · rfl
      · exact absurd hi hne'
    · rcases hid_cases hj' with ⟨-, hi'⟩ | ⟨hold', -⟩
      · exact absurd hi' hne
      · exact h.id_inj op op' j hold hold'
  case tracked =>
    intro j connection hlookup hpeer
    by_cases hj : j = i
    · subst hj
      obtain rfl := Option.some.inj (hlookup_self.symm.trans hlookup)
      exact ⟨opener, Function.update_self _ _ _, rfl⟩
    · rw [hlookup_of_ne hj] at hlookup
      obtain ⟨opener', hid, hdirection⟩ := h.tracked j connection hlookup hpeer
      exact ⟨opener', hid_of hid, hdirection⟩
  case peer =>
    intro opener' j connection hj hlookup
    rcases hid_cases hj with ⟨-, rfl⟩ | ⟨hold, hne⟩
    · obtain rfl := Option.some.inj (hlookup_self.symm.trans hlookup)
      rfl
    · rw [hlookup_of_ne hne] at hlookup
      exact h.peer opener' j connection hold hlookup
  case deduplicated =>
    intro j connection hmem hpeer
    exact hid_of (h.deduplicated j connection hmem hpeer)
  case seen =>
    intro hseen
    obtain ⟨j, hid, hmem, hj, hselected⟩ := h.seen hseen
    refine ⟨j, hid_of hid, ?_, hopen j hid hj, hactive.trans hselected⟩
    have hne : j ≠ i := fun heq => huntracked (heq ▸ hmem)
    rw [Finmap.mem_iff] at hmem ⊢
    rwa [hlookup_of_ne hne]

/-- A side works, and the two connections stay as they are. -/
theorem work (h : SideInv parties s sight id deduplicated seen)
    (hnpub : after.localNpub = (parties s).npub)
    (hkept : ∀ opener i, id opener = some i →
      after.connections.lookup i = sight.connections.lookup i)
    (htracked : ∀ i connection, after.connections.lookup i = some connection →
      connection.peer = (parties s.other).npub → ∃ opener, id opener = some i)
    (hactive : after.active.lookup (parties s.other).npub
      = sight.active.lookup (parties s.other).npub)
    (hopen : ∀ j, id (smaller parties) = some j → sight.isOpen j = true → after.isOpen j = true) :
    SideInv parties s after id deduplicated seen where
  localNpub := hnpub
  id_inj := h.id_inj
  tracked i connection hlookup hpeer := by
    obtain ⟨opener, hid⟩ := htracked i connection hlookup hpeer
    rw [hkept opener i hid] at hlookup
    exact h.tracked i connection hlookup hpeer
  peer opener i connection hid hlookup := by
    rw [hkept opener i hid] at hlookup
    exact h.peer opener i connection hid hlookup
  deduplicated := h.deduplicated
  seen hseen := by
    obtain ⟨i, hid, hmem, hi, hselected⟩ := h.seen hseen
    refine ⟨i, hid, ?_, hopen i hid hi, hactive.trans hselected⟩
    rw [Finmap.mem_iff] at hmem ⊢
    rwa [hkept _ i hid]

/-- A side refreshes. -/
theorem refresh (h : SideInv parties s sight id deduplicated seen)
    (hnpubs : (parties .a).npub ≠ (parties .b).npub) {ok : Bool} (hrefreshed : Refreshed sight ok after)
    {sees : Prop} (hsees : sees → ∃ i, id (smaller parties) = some i ∧ i ∈ sight.connections ∧
      sight.isOpen i = true) :
    SideInv parties s after id
      (deduplicated ++ (after.aborts.drop sight.aborts.length).filterMap fun i =>
        (sight.connections.lookup i).map fun connection => (i, connection))
      (seen ∨ ok = true ∧ sees) := by
  -- of the connection opened by the smaller npub, once it is tracked and open
  have hkept : ∀ {i}, id (smaller parties) = some i → i ∈ sight.connections →
      sight.isOpen i = true → i ∈ after.connections ∧ after.isOpen i = true ∧
        (ok = true ∨ sight.active.lookup (parties s.other).npub = some i →
          after.active.lookup (parties s.other).npub = some i) := by
    intro i hid hmem hopen
    obtain ⟨hlookup, hstate, hselected⟩ :=
      hrefreshed.preferred h.oneEach (h.preferred hnpubs hid hmem hopen)
    refine ⟨?_, ?_, hselected⟩
    · rw [Finmap.mem_iff] at hmem ⊢
      rwa [hlookup]
    · rw [View.isOpen] at hopen ⊢
      rwa [hstate]
  constructor
  case localNpub => exact hrefreshed.localNpub.trans h.localNpub
  case id_inj => exact h.id_inj
  case tracked =>
    intro i connection hlookup hpeer
    exact h.tracked i connection (hrefreshed.tracked hlookup) hpeer
  case peer =>
    intro opener i connection hid hlookup
    exact h.peer opener i connection hid (hrefreshed.tracked hlookup)
  case deduplicated =>
    intro i connection hmem hpeer
    rcases List.mem_append.mp hmem with hold | hnew
    · exact h.deduplicated i connection hold hpeer
    obtain ⟨attempted, haborts, hextra⟩ := hrefreshed.exists_aborts h.oneEach
    rw [haborts, List.drop_left, List.mem_filterMap] at hnew
    obtain ⟨j, hj, hmap⟩ := hnew
    obtain ⟨connection', hlookup, heq⟩ := Option.map_eq_some_iff.mp hmap
    obtain ⟨rfl, rfl⟩ := Prod.mk.inj heq
    -- it is one of the two, and not the preferred one
    obtain ⟨opener, hid, -⟩ := h.tracked j connection' hlookup hpeer
    have hnot : opener ≠ smaller parties := by
      intro hsmaller
      have hprefers := (h.prefers_iff hnpubs hid hlookup).mpr hsmaller
      rw [hextra j hj connection' hlookup hpeer] at hprefers
      cases hprefers
    obtain rfl := (Side.eq_or_eq_other (smaller parties) opener).resolve_left hnot
    exact hid
  case seen =>
    rintro (hseen | ⟨hok, hseen⟩)
    · obtain ⟨i, hid, hmem, hopen, hactive⟩ := h.seen hseen
      obtain ⟨hmem', hopen', hselected⟩ := hkept hid hmem hopen
      exact ⟨i, hid, hmem', hopen', hselected (.inr hactive)⟩
    · obtain ⟨i, hid, hmem, hopen⟩ := hsees hseen
      obtain ⟨hmem', hopen', hselected⟩ := hkept hid hmem hopen
      exact ⟨i, hid, hmem', hopen', hselected (.inl hok)⟩

end SideInv

/-- The invariant holds on both sides. -/
def World.Inv (w : World parties) : Prop :=
  ∀ s, SideInv parties s (w.sight s) (w.id s) (w.deduplicated s) (w.seen s)

namespace World

variable {w w' : World parties}

theorem Initial.inv (h : w.Initial) : w.Inv := by
  intro s
  constructor
  case localNpub => exact (parties s).localNpub_sight _
  case id_inj =>
    intro opener opener' i hid
    rw [h.id] at hid
    cases hid
  case tracked => exact fun i connection hlookup hpeer => absurd hpeer (h.untracked s i connection hlookup)
  case peer =>
    intro opener i connection hid
    rw [h.id] at hid
    cases hid
  case deduplicated =>
    intro i connection hmem
    rw [h.deduplicated] at hmem
    cases hmem
  case seen => exact fun hseen => absurd hseen (h.seen s)

theorem Inv.not_aborted_smaller (h : w.Inv) (s : Side) : ¬ w.Aborted s (smaller parties) := by
  rintro ⟨id, connection, hid, hmem, hpeer⟩
  exact smaller_ne_larger ((h s).id_inj _ _ id hid ((h s).deduplicated id connection hmem hpeer))

/-- The connection opened by the smaller npub stays open. -/
theorem Leaves.isOpen_smaller {s : Side} {after : Sight} (hleaves : w.Leaves s after) (h : w.Inv)
    (i : ConnectionId) (hid : w.id s (smaller parties) = some i)
    (hopen : (w.sight s).isOpen i = true) : after.isOpen i = true :=
  (hleaves.isOpen _ i hid hopen).resolve_right (h.not_aborted_smaller s.other)

theorem sight_setDriver (s : Side) (d : (parties s).State) :
    (w.setDriver s d).sight s = (parties s).sight d := by
  have hdriver : (w.setDriver s d).driver s = d := Function.update_self _ _ _
  rw [sight, hdriver]

theorem sight_setDriver_of_ne {s t : Side} (hne : t ≠ s) (d : (parties s).State) :
    (w.setDriver s d).sight t = w.sight t := by
  have hdriver : (w.setDriver s d).driver t = w.driver t := Function.update_of_ne hne _ _
  rw [sight, hdriver, sight]

/-- A move changes one side. -/
theorem Inv.of_side (h : w.Inv) (s : Side)
    (hself : SideInv parties s (w'.sight s) (w'.id s) (w'.deduplicated s) (w'.seen s))
    (hother : ∀ t ≠ s, w'.sight t = w.sight t ∧ w'.id t = w.id t ∧
      w'.deduplicated t = w.deduplicated t ∧ w'.seen t = w.seen t) : w'.Inv := by
  intro t
  by_cases ht : t = s
  · subst ht
    exact hself
  · obtain ⟨hsight, hid, hdedup, hseen⟩ := hother t ht
    rw [hsight, hid, hdedup, hseen]
    exact h t

/-- A side opens or accepts one of the two connections. -/
theorem Inv.track (h : w.Inv) {s opener : Side} {id : ConnectionId} {d : (parties s).State}
    (hnone : w.id s opener = none) (hfresh : ∀ opener', w.id s opener' ≠ some id)
    (huntracked : id ∉ (w.sight s).connections)
    (htracked : ((parties s).sight d).connections = (w.sight s).connections.insert id
      { peer := (parties s.other).npub, direction := directionOf s opener })
    (hleaves : w.Leaves s ((parties s).sight d)) :
    ((w.setDriver s d).setId s opener id).Inv := by
  refine h.of_side s ?_ fun t ht => ⟨sight_setDriver_of_ne ht d, ?_, rfl, rfl⟩
  · have hside := (h s).track hnone hfresh huntracked ((parties s).localNpub_sight d) htracked
      hleaves.active (hleaves.isOpen_smaller h)
    rw [← sight_setDriver s d] at hside
    rw [show ((w.setDriver s d).setId s opener id).id s
      = Function.update (w.id s) opener (some id) from Function.update_self _ _ _]
    exact hside
  · exact Function.update_of_ne ht _ _

theorem Inv.refresh (h : w.Inv) (hnpubs : (parties .a).npub ≠ (parties .b).npub) (s : Side)
    (order : RouteOrder) (nowMs : ℕ) : (w.refresh s order nowMs).Inv := by
  refine h.of_side s ?_ fun t ht => ⟨sight_setDriver_of_ne ht _, rfl, ?_, ?_⟩
  · have hside := (h s).refresh hnpubs
      ((parties s).refreshed_refresh order nowMs (w.driver s)) fun hsees : w.Sees s => hsees
    rw [show (w.refresh s order nowMs).sight s = _ from sight_setDriver s _,
      show (w.refresh s order nowMs).deduplicated s = _ from Function.update_self _ _ _,
      show (w.refresh s order nowMs).seen s = _ from Function.update_self _ _ _]
    exact hside
  · exact Function.update_of_ne ht _ _
  · exact Function.update_of_ne ht _ _

theorem Inv.step (h : w.Inv) (hnpubs : (parties .a).npub ≠ (parties .b).npub)
    (hstep : Step parties w w') : w'.Inv := by
  cases hstep with
  | opens s id d hnone hfresh huntracked htracked hleaves =>
    refine h.track hnone hfresh huntracked ?_ hleaves
    rwa [directionOf_eq_outbound.mpr rfl]
  | accepts s id d hopened hnone hfresh huntracked htracked hleaves =>
    refine h.track hnone hfresh huntracked ?_ hleaves
    rwa [directionOf_other]
  | refreshes s order nowMs => exact h.refresh hnpubs s order nowMs
  | works s d hkept htracked hleaves =>
    refine h.of_side s ?_ fun t ht => ⟨sight_setDriver_of_ne ht d, rfl, rfl, rfl⟩
    rw [sight_setDriver]
    exact (h s).work ((parties s).localNpub_sight d) hkept htracked hleaves.active
      (hleaves.isOpen_smaller h)

theorem Inv.run (h : w.Inv) (hnpubs : (parties .a).npub ≠ (parties .b).npub)
    (hrun : Relation.ReflTransGen (Step parties) w w') : w'.Inv := by
  induction hrun with
  | refl => exact h
  | tail _ hstep ih => exact ih.step hnpubs hstep

end World

/-- Simultaneous open never kills both streams. In every interleaving, a side calls `abort` to
deduplicate only for the connection that the larger npub opened, a side that has seen the connection
that the smaller npub opened has it selected, and when both sides abort they abort the same one. -/
theorem simultaneous_open (parties : Side → Party)
    (hnpubs : (parties .a).npub ≠ (parties .b).npub) {w₀ w : World parties} (hinitial : w₀.Initial)
    (hrun : Relation.ReflTransGen (Step parties) w₀ w) :
    (∀ s id connection, (id, connection) ∈ w.deduplicated s →
      connection.peer = (parties s.other).npub → w.id s (larger parties) = some id) ∧
    (∀ s, w.seen s → ∃ id, w.id s (smaller parties) = some id ∧
      (w.sight s).active.lookup (parties s.other).npub = some id) ∧
    ∀ opener opener', w.Aborted .a opener → w.Aborted .b opener' → opener = opener' := by
  have hinv : w.Inv := hinitial.inv.run hnpubs hrun
  have hlarger : ∀ s opener, w.Aborted s opener → opener = larger parties := by
    rintro s opener haborted
    by_contra hne
    obtain rfl := (Side.eq_or_eq_other (larger parties) opener).resolve_left hne
    refine hinv.not_aborted_smaller s ?_
    rwa [larger, Side.other_other] at haborted
  refine ⟨fun s => (hinv s).deduplicated, fun s hseen => ?_, fun opener opener' ha hb => ?_⟩
  · obtain ⟨id, hid, -, -, hactive⟩ := (hinv s).seen hseen
    exact ⟨id, hid, hactive⟩
  · exact (hlarger .a opener ha).trans (hlarger .b opener' hb).symm

/-! ### A run in which both sides open -/

/-- An adapter that has a list of connections with their states, and of the ones that were
aborted. -/
def listTcp : WireTcpEndpoint (List (ConnectionId × TcpState) × List ConnectionId) where
  accept t := (none, t)
  peer _ _ := none
  state t id := (t.1.find? fun entry => entry.1 == id).map Prod.snd
  isReadClosed _ _ := false
  read t _ _ _ := (.ok [], t)
  write t _ _ _ := (.ok 0, t)
  abort t id := (.ok (), t.1.filter fun entry => entry.1 != id, t.2 ++ [id])
  close t _ _ := (.ok (), t)
  poll t _ := (.ok (), t)
  receiveReportFiltered t _ _ _ s := ((.ok { datagrams := 0, rejected := 0 }, t), s)
  backlog _ := 0
  accept_lt _ _ _ h := by cases h
  abort_le _ _ := Nat.le_refl 0
  read_le _ _ _ _ _ _ h := by
    cases h
    exact Nat.zero_le _
  write_le _ _ _ _ _ _ h := by
    cases h
    exact Nat.zero_le _
  connect t _ _ := (.ok 1, t)
  abortPeer t _ := (.ok (), t)

/-- Its record of the calls of `abort`. -/
def listTcpLog : AbortLog listTcp.toTcpEndpoint where
  aborts t := t.2
  aborts_abort _ _ := rfl
  state_abort t id other hne := by
    have hfind : (t.1.filter fun entry => entry.1 != id).find? (fun entry => entry.1 == other)
        = t.1.find? fun entry => entry.1 == other := by
      rw [List.find?_filter]
      congr 1
      ext entry
      by_cases hentry : entry.1 = other
      · simp [hentry, hne]
      · simp [hentry]
    exact congrArg (Option.map Prod.snd) hfind

/-- Two wire drivers on this adapter. -/
def listParties (s : Side) : Party :=
  .wire
    { endpoint := listTcp
      options :=
        { frameCapacity := 8, peerCapacity := 2, inboundPeerCapacity := 1, queueRecordsPerPeer := 4,
          queueBytesPerPeer := 64, driveIoBytes := 64, driveFrames := 4 }
      localNpub := if s = .a then "npub1a" else "npub1b" }
    listTcpLog

/-- A driver with no selected stream yet. -/
def listDriver (s : Side) (connections : Connections) (states : List (ConnectionId × TcpState)) :
    (listParties s).State :=
  let d : WireTcpDriver (List (ConnectionId × TcpState) × List ConnectionId) :=
    { selectedPeers := ∅, inbound := ∅, tcp := (states, []), connections, active := ∅, queues := ∅
      inputs := ∅, continueReady := false }
  d

/-- A side has opened its connection to the other. -/
def openedOne (s : Side) : Connections :=
  (∅ : Connections).insert 1 { peer := (listParties s.other).npub, direction := .outbound }

/-- And accepted that of the other. -/
def openedTwo (s : Side) : Connections :=
  (openedOne s).insert 2 { peer := (listParties s.other).npub, direction := .inbound }

/-- Both sides before they open. -/
def beforeOpen : World listParties where
  driver s := listDriver s ∅ []
  id _ _ := none
  deduplicated _ := []
  seen _ := False

/-- Both sides have opened. -/
def afterOpen : World listParties :=
  (((beforeOpen.setDriver .a (listDriver .a (openedOne .a) [(1, .synSent)])).setId .a .a 1).setDriver
    .b (listDriver .b (openedOne .b) [(1, .synSent)])).setId .b .b 1

/-- Both sides have accepted, and see both connections established. -/
def afterAccept : World listParties :=
  (((afterOpen.setDriver .a
      (listDriver .a (openedTwo .a) [(1, .established), (2, .established)])).setId .a .b 2).setDriver .b
    (listDriver .b (openedTwo .b) [(1, .established), (2, .established)])).setId .b .a 2

/-- Both sides have refreshed. -/
def afterRefresh : World listParties :=
  (afterAccept.refresh .a (.ascending _) 0).refresh .b (.ascending _) 0

theorem initial_beforeOpen : beforeOpen.Initial where
  id _ _ := rfl
  untracked s id connection hlookup := by
    have hnone : (beforeOpen.sight s).connections.lookup id = none := Finmap.lookup_empty id
    rw [hnone] at hlookup
    cases hlookup
  deduplicated _ := rfl
  seen _ := id

/-- Nothing is open yet. -/
theorem leaves_of_closed {w : World listParties} {s : Side} {after : Sight}
    (hactive : after.active = (w.sight s).active)
    (hclosed : ∀ opener, (w.id s opener).all (fun id => !(w.sight s).isOpen id) = true) :
    w.Leaves s after where
  active := by rw [hactive]
  isOpen opener id hid hopen := by
    have hnot := hclosed opener
    rw [hid, Option.all_some, hopen] at hnot
    cases hnot

theorem run_afterOpen : Relation.ReflTransGen (Step listParties) beforeOpen afterOpen := by
  have ha : Step listParties beforeOpen _ :=
    .opens .a 1 (listDriver .a (openedOne .a) [(1, .synSent)]) rfl (by decide) (by decide) rfl
      (leaves_of_closed rfl (by decide))
  refine .tail (.single ha) (.opens .b 1 (listDriver .b (openedOne .b) [(1, .synSent)]) rfl
    (by decide) (by decide) rfl (leaves_of_closed rfl (by decide)))

theorem run_afterAccept : Relation.ReflTransGen (Step listParties) afterOpen afterAccept := by
  have ha : Step listParties afterOpen _ :=
    .accepts .a 2 (listDriver .a (openedTwo .a) [(1, .established), (2, .established)]) (by decide) rfl
      (by decide) (by decide) rfl (leaves_of_closed rfl (by decide))
  refine .tail (.single ha) (.accepts .b 2
    (listDriver .b (openedTwo .b) [(1, .established), (2, .established)]) (by decide) rfl
    (by decide) (by decide) rfl (leaves_of_closed rfl (by decide)))

/-- The connection that `a` opened is 1 there and 2 at `b`: both have it selected. -/
theorem simultaneous_open_both :
    afterRefresh.Aborted .a .b ∧ afterRefresh.Aborted .b .b ∧
    (afterRefresh.sight .a).active.lookup "npub1b" = some 1 ∧
    (afterRefresh.sight .b).active.lookup "npub1a" = some 2 := by
  have hrun : Relation.ReflTransGen (Step listParties) beforeOpen afterRefresh :=
    ((run_afterOpen.trans run_afterAccept).tail (.refreshes .a _ 0)).tail (.refreshes .b _ 0)
  obtain ⟨-, hselected, -⟩ := simultaneous_open listParties (by decide) initial_beforeOpen hrun
  have hseen : ∀ s, afterRefresh.seen s := by
    have hsees : ∀ s, ∃ id, afterAccept.id s .a = some id ∧
        id ∈ (afterAccept.sight s).connections ∧ (afterAccept.sight s).isOpen id = true
      | .a => ⟨1, by decide +kernel⟩
      | .b => ⟨2, by decide +kernel⟩
    rintro (_ | _)
    · exact .inr ⟨by decide +kernel, hsees .a⟩
    · exact .inr ⟨by decide +kernel, hsees .b⟩
  obtain ⟨ida, hida, hactivea⟩ := hselected .a (hseen .a)
  obtain ⟨idb, hidb, hactiveb⟩ := hselected .b (hseen .b)
  obtain rfl : 1 = ida := Option.some.inj hida
  obtain rfl : 2 = idb := Option.some.inj hidb
  refine ⟨⟨2, ⟨"npub1b", .inbound⟩, rfl, by decide +kernel, rfl⟩,
    ⟨1, ⟨"npub1a", .outbound⟩, rfl, by decide +kernel, rfl⟩, hactivea, hactiveb⟩

end NostrPubsub.WireTcp
