import NostrPubsub.Stream.Faults
import NostrPubsub.Stream.TcpDriver
import NostrPubsub.ToMathlib.Except

/-!
# Peers of one turn

One turn of the TCP driver serves every active peer in one loop, and every loop of it returns
at its first error. So a turn hands over what the stream delivered, and serves every active
peer in both passes, exactly when each of its steps finds a state that it can handle and the
peers together leave each of them bytes to spend: `isolated_iff_undisturbed`. One peer that
sends a bad record takes the deliveries of the peers before it away, and the turn of the peers
after it: `not_isolated_badRecord`.

The argument follows the trace. `Ran` says that a part of a turn succeeded iff everything it
recorded was sound, and that it then reported what the stream delivered; it holds of every step
and is kept by sequencing (`Ran.bind`).
-/

namespace NostrPubsub

variable {nostr : NostrCrate} {σ τ : Type} {config : DriverConfig nostr σ τ}

/-! ## Room in the queues -/

/-- The records that an answer sends to a peer. -/
def recordsFor (peer : String) (actions : List (FipsInvWantStreamAction nostr)) : List (List UInt8) :=
  actions.filterMap fun action =>
    match action with
    | .send peerId record => if peerId = peer then some record else none
    | .deliver _ => none

/-- The queues have room for an answer: with its records no more peers have a queue than may, and no
queue that the answer goes to holds more records or bytes than it may. -/
structure HasRoom (options : FipsInvWantTcpDriverOptions) (queues : Table PeerQueue)
    (actions : List (FipsInvWantStreamAction nostr)) : Prop where
  peers : (queues.keys ∪ (queueAdditions actions).keys).card ≤ options.maxPeers
  records : ∀ peer, recordsFor peer actions ≠ [] →
    ((queues.lookup peer).getD {}).records.length + (recordsFor peer actions).length
      ≤ options.maxQueuedRecordsPerPeer
  bytes : ∀ peer, recordsFor peer actions ≠ [] →
    ((queues.lookup peer).getD {}).bytes + ((recordsFor peer actions).map List.length).sum
      ≤ options.maxQueuedBytesPerPeer

/-- `additions` counts the records for every peer, and their bytes. -/
theorem lookup_queueAdditions (actions : List (FipsInvWantStreamAction nostr)) (peer : String) :
    (queueAdditions actions).lookup peer =
      if recordsFor peer actions = [] then none
      else some ((recordsFor peer actions).length,
        ((recordsFor peer actions).map List.length).sum) := by
  induction actions using List.reverseRecOn with
  | nil => rfl
  | append_singleton actions action ih =>
    rw [queueAdditions, List.foldl_concat]
    rw [queueAdditions] at ih
    cases action with
    | deliver event =>
      have hsame : recordsFor peer (actions ++ [.deliver event]) = recordsFor peer actions := by
        simp [recordsFor]
      rw [hsame]
      exact ih
    | send peerId record =>
      -- A record of another peer leaves the counts of this one.
      by_cases hpeer : peerId = peer
      · subst hpeer
        have hmore : recordsFor peerId (actions ++ [.send peerId record]) =
            recordsFor peerId actions ++ [record] := by
          simp [recordsFor]
        rw [hmore, if_neg (List.concat_ne_nil _ _)]
        simp only [Finmap.lookup_insert, ih]
        split
        · rename_i hnone
          simp [hnone]
        · simp
      · have hsame : recordsFor peer (actions ++ [.send peerId record]) =
            recordsFor peer actions := by
          simp [recordsFor, hpeer]
        rw [hsame, ← ih]
        exact Finmap.lookup_insert_of_ne _ (Ne.symm hpeer)

/-- `apply_actions` accepts an answer iff there is room for it. -/
theorem isOk_admitActions {options : FipsInvWantTcpDriverOptions} {queues : Table PeerQueue}
    {actions : List (FipsInvWantStreamAction nostr)} :
    (admitActions options queues actions).isOk = true ↔ HasRoom options queues actions := by
  -- The source counts the peers of the additions that have no queue yet; together with those that
  -- have one they are the union.
  have hcard : queues.size + ((queueAdditions actions).keys.filter fun peer => peer ∉ queues).card =
      (queues.keys ∪ (queueAdditions actions).keys).card := by
    have hnew : ((queueAdditions actions).keys.filter fun peer => peer ∉ queues) =
        (queueAdditions actions).keys \ queues.keys := by
      ext peer
      simp [Finmap.mem_keys]
    rw [hnew, Finset.union_comm, ← Finset.sdiff_union_self_eq_union,
      Finset.card_union_of_disjoint Finset.sdiff_disjoint, add_comm]
    rfl
  have haddition : ∀ addition : String × ℕ × ℕ,
      (admitAddition options queues addition).isOk = true ↔
        ((queues.lookup addition.1).getD {}).records.length + addition.2.1
            ≤ options.maxQueuedRecordsPerPeer ∧
          ((queues.lookup addition.1).getD {}).bytes + addition.2.2
            ≤ options.maxQueuedBytesPerPeer := by
    rintro ⟨peer, records, bytes⟩
    dsimp only [admitAddition]
    split
    · rename_i hrecords
      exact iff_of_false Bool.false_ne_true fun h => hrecords.not_ge h.1
    split
    · rename_i hbytes
      exact iff_of_false Bool.false_ne_true fun h => hbytes.not_ge h.2
    · rename_i hrecords hbytes
      exact iff_of_true rfl ⟨not_lt.mp hrecords, not_lt.mp hbytes⟩
  -- An addition is what `recordsFor` collects, so a check of all additions is one of all peers.
  have hentry : ∀ peer records bytes,
      (peer, records, bytes) ∈ (queueAdditions actions).entriesAscending ↔
        recordsFor peer actions ≠ [] ∧ records = (recordsFor peer actions).length ∧
          bytes = ((recordsFor peer actions).map List.length).sum := by
    intro peer records bytes
    rw [Table.mem_entriesAscending, lookup_queueAdditions]
    by_cases hnone : recordsFor peer actions = []
    · simp [hnone]
    · simp [hnone, eq_comm]
  rw [admitActions]
  simp only [hcard]
  split
  · rename_i hfull
    exact iff_of_false Bool.false_ne_true fun h => hfull.not_ge h.peers
  · rename_i hpeers
    rw [Except.isOk_forM]
    constructor
    · intro h
      have hfits : ∀ peer, recordsFor peer actions ≠ [] → _ := fun peer hsends =>
        (haddition _).mp (h _ ((hentry peer _ _).mpr ⟨hsends, rfl, rfl⟩))
      exact ⟨not_lt.mp hpeers, fun peer hsends => (hfits peer hsends).1,
        fun peer hsends => (hfits peer hsends).2⟩
    · rintro h ⟨peer, records, bytes⟩ hmem
      obtain ⟨hsends, rfl, rfl⟩ := (hentry peer records bytes).mp hmem
      exact (haddition _).mpr ⟨h.records peer hsends, h.bytes peer hsends⟩

/-! ## Passes -/

namespace PassStep

/-- The bytes that one step moved for the peers that `p` selects. -/
def movedFor (p : String → Bool) : PassStep → ℕ
  | .moved peer bytes => if p peer then bytes else 0
  | _ => 0

/-- The peer that the pass reached here. -/
def reached : PassStep → Option String
  | .visited peer => some peer
  | _ => none

end PassStep

/-- The bytes that a pass moved. -/
def moved (steps : List PassStep) : ℕ := (steps.map (PassStep.movedFor fun _ => true)).sum

/-- The bytes that a pass moved for other peers. -/
def movedForOthers (peer : String) (steps : List PassStep) : ℕ :=
  (steps.map (PassStep.movedFor fun other => decide (other ≠ peer))).sum

/-- The peers that a pass reached, in order. -/
def reachedPeers (steps : List PassStep) : List String := steps.filterMap PassStep.reached

/-- A pass turned no peer away over the bytes that it had moved for others. -/
def ServesAll (steps : List PassStep) : Prop :=
  ∀ before peer after, steps = before ++ .asked peer true :: after → movedForOthers peer before = 0

/-- Whenever a peer waited for the pass, the adapter had moved less than the limit by then, or it had
moved bytes for that peer alone. -/
def Affordable (limit : ℕ) (steps : List PassStep) : Prop :=
  ∀ before peer away after, steps = before ++ .asked peer away :: after →
    moved before < limit ∨ movedForOthers peer before = 0

/-- A pass with so many bytes to spend turns a peer away exactly when it has spent them. -/
def Spends : ℕ → List PassStep → Prop
  | _, [] => True
  | budget, .visited _ :: steps => Spends budget steps
  | budget, .asked _ turnedAway :: steps => turnedAway = decide (budget = 0) ∧ Spends budget steps
  | budget, .moved _ bytes :: steps => Spends (budget - bytes) steps

/-- What two parts of a pass moved is what both moved. -/
theorem moved_append (before after : List PassStep) :
    moved (before ++ after) = moved before + moved after := by
  rw [moved, List.map_append, List.sum_append]
  rfl

/-- The peers that two parts of a pass reached are those that either reached. -/
theorem reachedPeers_append (before after : List PassStep) :
    reachedPeers (before ++ after) = reachedPeers before ++ reachedPeers after :=
  List.filterMap_append

/-- A pass goes on with what its first steps left. -/
theorem spends_append {budget : ℕ} {before after : List PassStep} :
    Spends budget (before ++ after) ↔
      Spends budget before ∧ Spends (budget - moved before) after := by
  induction before generalizing budget with
  | nil => simp [Spends, moved]
  | cons step steps ih =>
    have hmoved : moved (step :: steps) = moved [step] + moved steps := moved_append [step] steps
    rw [hmoved, ← Nat.sub_sub]
    -- Only moved bytes leave less to spend.
    cases step with
    | visited peer => exact ih
    | asked peer turnedAway =>
      rw [List.cons_append, Spends, Spends, ih, and_assoc]
      rfl
    | moved peer bytes => exact ih

/-- A pass serves all iff the peers could afford it. -/
theorem servesAll_iff_affordable {limit : ℕ} {steps : List PassStep} (h : Spends limit steps) :
    ServesAll steps ↔ Affordable limit steps := by
  -- Whether a peer is turned away follows from what the pass has moved before it.
  have hturned : ∀ before peer turnedAway after, steps = before ++ .asked peer turnedAway :: after →
      turnedAway = decide (limit - moved before = 0) := by
    intro before peer turnedAway after hsteps
    rw [hsteps] at h
    exact (spends_append.mp h).2.1
  constructor
  · intro hserves before peer turnedAway after hsteps
    rcases Nat.lt_or_ge (moved before) limit with hleft | hspent
    · exact .inl hleft
    · have haway : turnedAway = true :=
        (hturned before peer turnedAway after hsteps).trans
          (decide_eq_true (Nat.sub_eq_zero_of_le hspent))
      rw [haway] at hsteps
      exact .inr (hserves before peer after hsteps)
  · intro hafford before peer after hsteps
    have hspent : limit - moved before = 0 :=
      of_decide_eq_true (hturned before peer true after hsteps).symm
    rcases hafford before peer true after hsteps with hleft | halone
    · omega
    · exact halone

/-! ## What a turn owes -/

namespace TurnEvent

/-- The turn can handle what it comes to here. The adapter and the peer policy have answered; the
records that the peer's bytes complete are well formed and accepted, and what the stream answers fits
into frames; the queues have room for the answer. -/
def Sound (order : RouteOrder) : TurnEvent config → Prop
  | .tcpFailed => False
  | .policyFailed => False
  | .selected _ => True
  | .pass _ _ => True
  | .connected peer nowMs s => s.handlesConnection order peer nowMs = true
  | .received peer bytes connectedPeers nowMs s =>
    s.handlesBytes order peer bytes connectedPeers nowMs = true
  | .applied queues actions => HasRoom config.options queues actions

/-- The deliveries that the stream returned here. A call that fails returns none, but then the
turn fails as well. -/
def deliveries (order : RouteOrder) : TurnEvent config → List (QueryEvent nostr)
  | .connected peer nowMs s =>
    (s.peerConnected order peer nowMs).1.toOption.elim [] NostrPubsub.deliveries
  | .received peer bytes connectedPeers nowMs s =>
    (s.receiveBytes order peer bytes connectedPeers nowMs).1.toOption.elim []
      NostrPubsub.deliveries
  | _ => []

/-- What a pass did here. -/
def passStep (pass : Pass) : TurnEvent config → Option PassStep
  | .pass pass' step => if pass' = pass then some step else none
  | _ => none

end TurnEvent

/-- The steps of a pass. -/
def passSteps (pass : Pass) (trace : List (TurnEvent config)) : List PassStep :=
  trace.filterMap (TurnEvent.passStep pass)

/-- The steps of a pass are those of the parts of the turn. -/
theorem passSteps_append (pass : Pass) (before after : List (TurnEvent config)) :
    passSteps pass (before ++ after) = passSteps pass before ++ passSteps pass after :=
  List.filterMap_append

/-- Every peer gets its turn: the turn returns a report, with all that the stream delivered in
it, and each of the two passes reached every active peer and turned none away over bytes that it had
moved for others. -/
def Isolated (order : RouteOrder)
    (outcome : Except PubsubError (FipsInvWantTcpDriveReport nostr) × Turn config) : Prop :=
  ∃ report peers,
    outcome.1 = .ok report ∧
    report.deliveries = outcome.2.trace.flatMap (TurnEvent.deliveries order) ∧
    .selected peers ∈ outcome.2.trace ∧
    ∀ pass, reachedPeers (passSteps pass outcome.2.trace) = peers ∧
      ServesAll (passSteps pass outcome.2.trace)

/-- The steps of a turn all find what they can handle, and the bytes that the adapter moves leave every
peer its share of either pass. -/
structure Undisturbed (order : RouteOrder) (steps : List (TurnEvent config)) : Prop where
  sound : ∀ step ∈ steps, step.Sound order
  affordable : ∀ pass, Affordable config.options.maxIoBytesPerDrive (passSteps pass steps)

/-! ## Parts of a turn -/

variable {α β : Type} {order : RouteOrder}

/-- A part of a turn that started at `t` and ended as `r` recorded some events. It succeeded iff
they are all sound, and then it reported their deliveries and they are as `Q` says. -/
def Ran (order : RouteOrder) (Q : α → List (TurnEvent config) → Prop) (t : Turn config)
    (r : Except PubsubError α × Turn config) : Prop :=
  ∃ events,
    r.2.trace = t.trace ++ events ∧
    (r.1.isOk = true ↔ ∀ event ∈ events, event.Sound order) ∧
    ∀ a, r.1 = .ok a →
      r.2.report.deliveries = t.report.deliveries ++ events.flatMap (TurnEvent.deliveries order) ∧
      Q a events

/-- No pass did anything. -/
def NoPass (events : List (TurnEvent config)) : Prop := ∀ pass, passSteps pass events = []

/-- A part of a turn that is no part of a pass. -/
def Quiet (order : RouteOrder) (x : TurnM config α) : Prop :=
  ∀ t, Ran order (fun _ => NoPass) t (x t)

namespace Ran

variable {Q : α → List (TurnEvent config) → Prop} {t : Turn config}

/-- What is said of the events may be said less exactly. -/
theorem weaken {Q' : α → List (TurnEvent config) → Prop}
    {r : Except PubsubError α × Turn config} (h : Ran order Q t r)
    (hQ : ∀ a events, Q a events → Q' a events) : Ran order Q' t r := by
  obtain ⟨events, htrace, hok, hdone⟩ := h
  exact ⟨events, htrace, hok, fun a hr => ⟨(hdone a hr).1, hQ a events (hdone a hr).2⟩⟩

/-- The first part fails and is all, or the second runs after it. -/
theorem bind {Q' : α → β → List (TurnEvent config) → Prop}
    {Q'' : β → List (TurnEvent config) → Prop} {x : TurnM config α} {f : α → TurnM config β}
    (hx : Ran order Q t (x t))
    (hf : ∀ a t', x t = (.ok a, t') → Ran order (Q' a) t' (f a t'))
    (hQ : ∀ a b before after, Q a before → Q' a b after → Q'' b (before ++ after)) :
    Ran order Q'' t ((x >>= f) t) := by
  obtain ⟨events, htrace, hok, hdone⟩ := hx
  -- The second part runs only if the first succeeds, which it does iff its events are sound.
  rcases hresult : x t with ⟨error | a, t'⟩
  · rw [hresult] at htrace hok
    rw [TurnM.bind_of_error hresult]
    refine ⟨events, htrace, hok, fun b h => ?_⟩
    cases h
  · rw [hresult] at htrace hok hdone
    rw [TurnM.bind_of_ok hresult]
    obtain ⟨events', htrace', hok', hdone'⟩ := hf a t' hresult
    have hevents : ∀ event ∈ events, event.Sound order := hok.mp rfl
    obtain ⟨hdeliveries, hq⟩ := hdone a rfl
    refine ⟨events ++ events', ?_, ?_,
      fun b h => ⟨?_, hQ a b events events' hq (hdone' b h).2⟩⟩
    · rw [htrace', htrace, List.append_assoc]
    · rw [hok', List.forall_mem_append]
      exact ⟨fun h => ⟨hevents, h⟩, And.right⟩
    · rw [(hdone' b h).1, hdeliveries, List.flatMap_append, List.append_assoc]

/-- A part that records nothing and reports nothing. -/
theorem silent {a : α} {t' : Turn config} (htrace : t'.trace = t.trace)
    (hdeliveries : t'.report.deliveries = t.report.deliveries) (hQ : Q a []) :
    Ran order Q t (.ok a, t') := by
  refine ⟨[], by simp [htrace], iff_of_true rfl (by simp), ?_⟩
  rintro a' ⟨⟩
  exact ⟨by simp [hdeliveries], hQ⟩

/-- A part that fails over its one event. -/
theorem failed {error : PubsubError} {t' : Turn config} {event : TurnEvent config}
    (hevent : ¬event.Sound order) (htrace : t'.trace = t.trace ++ [event]) :
    Ran order Q t (.error error, t') := by
  refine ⟨[event], htrace, iff_of_false Bool.false_ne_true (by simpa using hevent), ?_⟩
  rintro a ⟨⟩

/-- A part that succeeds with its one event, which delivers nothing. -/
theorem noted {a : α} {t' : Turn config} {event : TurnEvent config}
    (hevent : event.Sound order) (htrace : t'.trace = t.trace ++ [event])
    (hdeliveries : t'.report.deliveries = t.report.deliveries)
    (hnone : event.deliveries order = []) (hQ : Q a [event]) : Ran order Q t (.ok a, t') := by
  refine ⟨[event], htrace, iff_of_true rfl (by simpa using hevent), ?_⟩
  rintro a' ⟨⟩
  exact ⟨by simp [hdeliveries, hnone], hQ⟩

end Ran

theorem NoPass.nil : NoPass ([] : List (TurnEvent config)) := fun _ => rfl

theorem NoPass.append {before after : List (TurnEvent config)} (h : NoPass before)
    (h' : NoPass after) : NoPass (before ++ after) := by
  intro pass
  rw [passSteps_append, h pass, h' pass, List.append_nil]

namespace Quiet

open TurnM

theorem pure (a : α) : Quiet order (Pure.pure a : TurnM config α) :=
  fun _ => .silent rfl rfl .nil

theorem bind {x : TurnM config α} {f : α → TurnM config β} (hx : Quiet order x)
    (hf : ∀ a, Quiet order (f a)) : Quiet order (x >>= f) :=
  fun t => (hx t).bind (fun a t' _ => hf a t') fun _ _ _ _ => NoPass.append

theorem getDriver : Quiet order (getDriver : TurnM config _) :=
  fun _ => .silent rfl rfl .nil

theorem modifyDriver (change : FipsInvWantTcpDriver config → FipsInvWantTcpDriver config) :
    Quiet order (modifyDriver change) :=
  fun _ => .silent rfl rfl .nil

/-- A call of the adapter fails with the event that says so. -/
theorem callTcp (context : String) (call : τ → Except String α × τ) :
    Quiet order (callTcp context call : TurnM config α) := by
  intro t
  unfold TurnM.callTcp
  rcases call t.driver.tcp with ⟨error | a, tcp⟩
  · exact .failed id rfl
  · exact .silent rfl rfl .nil

/-- The turn gives up on an accepted stream without a peer. -/
theorem noteFailed (error : PubsubError) :
    Quiet order (note .tcpFailed >>= fun _ => (fail error : TurnM config α)) := by
  intro t
  have hfailed : ¬(.tcpFailed : TurnEvent config).Sound order := id
  exact .failed hfailed rfl

theorem forEach {ι : Type} {body : ι → TurnM config Unit} (h : ∀ i, Quiet order (body i)) :
    ∀ l : List ι, Quiet order (forEach body l)
  | [] => pure ()
  | i :: l => (h i).bind fun _ => forEach h l

/-- A call of the stream and the queueing of its answer. In between the deliveries are in
neither the report nor the queues: if the answer does not fit, they are lost. -/
theorem applyCall {event : FipsInvWantStream config.stream → TurnEvent config}
    {call : FipsInvWantStream config.stream →
      Except PubsubError (List (FipsInvWantStreamAction nostr)) × FipsInvWantStream config.stream}
    (hsound : ∀ s, (event s).Sound order ↔ (call s).1.isOk = true)
    (hdeliveries : ∀ s,
      (event s).deliveries order = (call s).1.toOption.elim [] NostrPubsub.deliveries)
    (hpass : ∀ s pass, (event s).passStep pass = none) :
    Quiet order (FipsInvWantTcpDriver.applyCall event call) := by
  intro t
  unfold FipsInvWantTcpDriver.applyCall
  have hsound := hsound t.driver.stream
  have hdeliveries := hdeliveries t.driver.stream
  have hrun : TurnM.callStream event call t = ((call t.driver.stream).1,
      { t with
        driver := { t.driver with stream := (call t.driver.stream).2 }
        trace := t.trace ++ [event t.driver.stream] }) := rfl
  rcases hcall : call t.driver.stream with ⟨error | actions, stream⟩
  · rw [hcall] at hsound hrun
    rw [TurnM.bind_of_error hrun]
    exact .failed (fun h => Bool.false_ne_true (hsound.mp h)) rfl
  · rw [hcall] at hsound hdeliveries hrun
    rw [TurnM.bind_of_ok hrun]
    have hcalled : (event t.driver.stream).Sound order := hsound.mpr rfl
    refine ⟨[event t.driver.stream, .applied t.driver.queues actions], ?_, ?_,
      fun a h => ⟨?_, ?_⟩⟩
    · rw [FipsInvWantTcpDriver.applyActions_trace, List.append_assoc]
      rfl
    · rw [FipsInvWantTcpDriver.applyActions_isOk, isOk_admitActions, List.forall_mem_cons,
        List.forall_mem_singleton]
      exact ⟨fun h => ⟨hcalled, h⟩, And.right⟩
    · rw [FipsInvWantTcpDriver.applyActions_deliveries (by rw [h]; rfl), List.flatMap_cons,
        hdeliveries]
      simp [TurnEvent.deliveries, Except.toOption]
    · intro pass
      rw [passSteps, List.filterMap_cons_none (hpass _ pass)]
      rfl

/-- A `peer_connected` that the turn makes. -/
theorem connected (peer : String) (nowMs : ℕ) :
    Quiet order (FipsInvWantTcpDriver.applyCall (.connected peer nowMs) fun s =>
      s.peerConnected order peer nowMs : TurnM config Unit) := by
  refine .applyCall (fun s => ?_) (fun _ => rfl) fun _ _ => rfl
  rw [FipsInvWantStream.isOk_peerConnected]
  rfl

/-- A `receive_bytes` that the turn makes. -/
theorem received (peer : String) (bytes : List UInt8) (connectedPeers : List String) (nowMs : ℕ) :
    Quiet order (FipsInvWantTcpDriver.applyCall (.received peer bytes connectedPeers nowMs) fun s =>
      s.receiveBytes order peer bytes connectedPeers nowMs : TurnM config Unit) := by
  refine .applyCall (fun s => ?_) (fun _ => rfl) fun _ _ => rfl
  rw [FipsInvWantStream.isOk_receiveBytes]
  rfl

end Quiet

/-! ## The steps of a turn -/

namespace FipsInvWantTcpDriver

open TurnM

/-- Accepting connections is no part of a pass. -/
theorem quiet_acceptConnections :
    ∀ backlog, Quiet order (acceptConnections backlog : TurnM config Unit)
  | 0 => .pure ()
  | backlog + 1 => by
    refine (Quiet.callTcp _ _).bind fun accepted => ?_
    cases accepted with
    | none => exact .pure ()
    | some id =>
      refine Quiet.getDriver.bind fun d => ?_
      -- An accepted stream without a peer ends the turn.
      cases config.tcp.peer d.tcp id with
      | none => exact .noteFailed _
      | some peer =>
        refine Quiet.getDriver.bind fun d => ?_
        -- With room for its peer the stream is tracked, otherwise aborted.
        split
        · exact (Quiet.modifyDriver _).bind fun _ => quiet_acceptConnections backlog
        · exact (Quiet.callTcp _ _).bind fun _ => quiet_acceptConnections backlog

/-- Activating a stream is no part of a pass. -/
theorem quiet_activatePeer (nowMs : ℕ) (peer : String) :
    Quiet order (activatePeer order nowMs peer : TurnM config Unit) := by
  refine (Quiet.modifyDriver _).bind fun _ => Quiet.getDriver.bind fun d => ?_
  split
  · exact .connected peer nowMs
  · exact .pure ()

/-- Refreshing the streams is no part of a pass. -/
theorem quiet_refreshActive (nowMs : ℕ) :
    Quiet order (refreshActive order nowMs : TurnM config Unit) := by
  refine (Quiet.modifyDriver _).bind fun _ => Quiet.getDriver.bind fun d => ?_
  have hextras : ∀ id, Quiet order (callTcp "deduplicate TCP/FIPS pubsub stream"
      (fun tcp => config.tcp.abort tcp id) >>= fun _ =>
        modifyDriver fun d : FipsInvWantTcpDriver config =>
          { d with connections := d.connections.erase id }) :=
    fun id => (Quiet.callTcp _ _).bind fun _ => .modifyDriver _
  refine (Quiet.forEach hextras _).bind fun _ => (Quiet.modifyDriver _).bind fun _ => ?_
  exact .forEach (quiet_activatePeer nowMs) _

/-- Finishing closes is no part of a pass. -/
theorem quiet_finishRemoteCloses (nowMs : ℕ) :
    Quiet order (finishRemoteCloses nowMs : TurnM config Unit) :=
  Quiet.getDriver.bind fun _ => .forEach (fun _ => .callTcp _ _) _

/-! ## The passes -/

/-- One pass reached these peers, with so many bytes to spend before and after; the other did
nothing. -/
structure Spent (pass : Pass) (peers : List String) (budget left : ℕ)
    (events : List (TurnEvent config)) : Prop where
  other : ∀ pass', pass' ≠ pass → passSteps pass' events = []
  peers : reachedPeers (passSteps pass events) = peers
  spends : Spends budget (passSteps pass events)
  left : left = budget - moved (passSteps pass events)

namespace Spent

variable {pass : Pass} {budget : ℕ}

/-- Nothing spends nothing. -/
theorem of_noPass {events : List (TurnEvent config)} (h : NoPass events) :
    Spent pass [] budget budget events where
  other pass' _ := h pass'
  peers := by rw [h pass]; rfl
  spends := by rw [h pass]; trivial
  left := by rw [h pass]; rfl

/-- One step of the pass. -/
theorem of_step {peers : List String} {left : ℕ} {step : PassStep}
    (hpeers : reachedPeers [step] = peers) (hspends : Spends budget [step])
    (hleft : left = budget - moved [step]) :
    Spent pass peers budget left [(.pass pass step : TurnEvent config)] := by
  have hsteps : passSteps pass [(.pass pass step : TurnEvent config)] = [step] := by
    simp [passSteps, TurnEvent.passStep]
  refine ⟨fun pass' hpass => ?_, by rw [hsteps, hpeers], by rwa [hsteps], by rwa [hsteps]⟩
  simp [passSteps, TurnEvent.passStep, Ne.symm hpass]

theorem append {peers peers' : List String} {middle left : ℕ}
    {before after : List (TurnEvent config)} (h : Spent pass peers budget middle before)
    (h' : Spent pass peers' middle left after) :
    Spent pass (peers ++ peers') budget left (before ++ after) := by
  refine ⟨fun pass' hpass => ?_, ?_, ?_, ?_⟩
  · rw [passSteps_append, h.other pass' hpass, h'.other pass' hpass, List.append_nil]
  · rw [passSteps_append, reachedPeers_append, h.peers, h'.peers]
  · rw [passSteps_append, spends_append, ← h.left]
    exact ⟨h.spends, h'.spends⟩
  · rw [passSteps_append, moved_append, ← Nat.sub_sub, ← h.left]
    exact h'.left

end Spent

/-- A part of a pass that came with so many bytes to spend and returns what is left of them. -/
def Spending (order : RouteOrder) (pass : Pass) (peers : List String) (budget : ℕ)
    (x : TurnM config ℕ) : Prop :=
  ∀ t, Ran order (fun left => Spent pass peers budget left) t (x t)

namespace Spending

variable {pass : Pass} {peers : List String} {budget : ℕ}

theorem pure (budget : ℕ) : Spending order pass [] budget (Pure.pure budget : TurnM config ℕ) :=
  fun _ => .silent rfl rfl (Spent.of_noPass .nil)

/-- A part of a pass after something quiet. -/
theorem quiet_bind {x : TurnM config α} {f : α → TurnM config ℕ} (hx : Quiet order x)
    (hf : ∀ a, Spending order pass peers budget (f a)) :
    Spending order pass peers budget (x >>= f) :=
  fun t => (hx t).bind (fun a t' _ => hf a t') fun _ _ _ _ h h' => (Spent.of_noPass h).append h'

/-- Two parts of a pass, the second with what the first leaves. -/
theorem bind {peers' : List String} {x : TurnM config ℕ} {f : ℕ → TurnM config ℕ}
    (hx : Spending order pass peers budget x)
    (hf : ∀ left, Spending order pass peers' left (f left)) :
    Spending order pass (peers ++ peers') budget (x >>= f) :=
  fun t => (hx t).bind (fun left t' _ => hf left t') fun _ _ _ _ => Spent.append

/-- The pass takes note of a step and goes on with what that leaves. -/
theorem note_bind {peers' : List String} {left : ℕ} {step : PassStep} {f : Unit → TurnM config ℕ}
    (hpeers : reachedPeers [step] = peers) (hspends : Spends budget [step])
    (hleft : left = budget - moved [step]) (hf : Spending order pass peers' left (f ())) :
    Spending order pass (peers ++ peers') budget (note (.pass pass step) >>= f) := by
  intro t
  have hstep : (.pass pass step : TurnEvent config).Sound order := trivial
  have hnote : Ran order (fun _ => Spent pass peers budget left) t
      (note (.pass pass step : TurnEvent config) t) :=
    .noted hstep rfl rfl rfl (Spent.of_step hpeers hspends hleft)
  exact hnote.bind (fun _ t' _ => hf t') fun _ _ _ _ => Spent.append

/-- The pass reaches a peer. -/
theorem visited_bind (peer : String) {f : Unit → TurnM config ℕ}
    (hf : Spending order pass [] budget (f ())) :
    Spending order pass [peer] budget (note (.pass pass (.visited peer)) >>= f) :=
  note_bind rfl trivial rfl hf

/-- The pass comes to a peer that waits for it. -/
theorem asked_bind (peer : String) {f : Unit → TurnM config ℕ}
    (hf : Spending order pass [] budget (f ())) :
    Spending order pass [] budget (noteAsked pass peer budget >>= f) :=
  note_bind rfl ⟨rfl, trivial⟩ rfl hf

/-- The flush pass comes to a peer that a record may wait for. -/
theorem waiting_bind (peer : String) {f : Unit → TurnM config ℕ}
    (hf : Spending order .flush [] budget (f ())) :
    Spending order .flush [] budget (noteWaiting peer budget >>= f) := by
  intro t
  by_cases hwaits : (t.driver.frontRecord peer).isSome = true
  · have hwaited : noteWaiting peer budget t = noteAsked .flush peer budget t := if_pos hwaits
    have hnote : (noteWaiting peer budget >>= f) t = (noteAsked .flush peer budget >>= f) t :=
      bind_of_ok hwaited
    rw [hnote]
    exact asked_bind peer hf t
  · have hskip : (noteWaiting peer budget >>= f) t = f () t :=
      bind_of_ok (if_neg hwaits)
    rw [hskip]
    exact hf t

/-- The pass moves bytes and goes on with what is left. -/
theorem moved_bind (peer : String) (bytes : ℕ) {f : Unit → TurnM config ℕ}
    (hf : Spending order pass [] (budget - bytes) (f ())) :
    Spending order pass [] budget (note (.pass pass (.moved peer bytes)) >>= f) :=
  note_bind rfl trivial rfl hf

/-- A pass goes over its streams and reaches their peers. -/
theorem forEachWithin {work : String × ConnectionId → ℕ → TurnM config ℕ}
    (hwork : ∀ stream budget, Spending order pass [] budget (work stream budget)) :
    ∀ (streams : List (String × ConnectionId)) (budget : ℕ),
      Spending order pass (streams.map Prod.fst) budget
        (forEachWithin (fun stream budget => do
          note (.pass pass (.visited stream.1))
          work stream budget) streams budget)
  | [], budget => .pure budget
  | stream :: streams, budget =>
    .bind (visited_bind stream.1 (hwork stream budget)) fun left =>
      forEachWithin hwork streams left

end Spending

/-- Reading a stream moves bytes of its peer only, within the budget. -/
theorem spending_readPeer (connectedPeers : List String) (nowMs : ℕ) (peer : String)
    (id : ConnectionId) : ∀ turns budget, Spending order .read [] budget
      (readPeer order connectedPeers nowMs peer id turns budget : TurnM config ℕ)
  | 0, budget => .pure budget
  | turns + 1, budget => by
    -- Whatever it read, the loop hands it to the stream and turns again.
    have hreceived : ∀ bytes left, Spending order .read [] left (do
        applyCall (.received peer bytes connectedPeers nowMs) fun s =>
          s.receiveBytes order peer bytes connectedPeers nowMs
        readPeer order connectedPeers nowMs peer id turns left : TurnM config ℕ) := by
      intro bytes left
      refine .quiet_bind (.received peer bytes connectedPeers nowMs) fun _ => ?_
      exact spending_readPeer connectedPeers nowMs peer id turns left
    refine .quiet_bind .getDriver fun d => ?_
    split
    · exact hreceived [] budget
    -- What the decoder still holds costs nothing; from here on the peer needs bytes of the budget.
    refine .asked_bind peer ?_
    split
    · exact .pure budget
    dsimp only
    split
    · exact .pure budget
    refine .quiet_bind (.callTcp _ _) fun bytes => ?_
    split
    · exact .pure budget
    · exact .moved_bind peer bytes.length
        (.quiet_bind (fun _ => .silent rfl rfl .nil) fun _ => hreceived bytes _)

/-- Flushing a queue moves bytes of its peer only, within the budget. -/
theorem spending_flushPeer (nowMs : ℕ) (peer : String) (id : ConnectionId) : ∀ fuel budget,
    Spending order .flush [] budget (flushPeer nowMs peer id fuel budget : TurnM config ℕ)
  | 0, budget => .waiting_bind peer (.pure budget)
  | fuel + 1, budget => by
    refine .waiting_bind peer ?_
    split
    · exact .pure budget
    refine .quiet_bind .getDriver fun d => ?_
    split
    · exact .pure budget
    dsimp only
    refine .quiet_bind (.callTcp _ _) fun accepted => ?_
    split
    · exact .pure budget
    -- The adapter took the front of the queue or a part of it; the rest stays queued.
    refine .moved_bind peer accepted (.quiet_bind (fun _ => .silent rfl rfl .nil) fun _ => ?_)
    exact .quiet_bind (.modifyDriver _) fun _ => spending_flushPeer nowMs peer id fuel _

/-- A whole pass spends its limit on the peers that are selected. -/
def PassOver (pass : Pass) (peers : List String) (events : List (TurnEvent config)) : Prop :=
  ∃ left, Spent pass peers config.options.maxIoBytesPerDrive left events

/-- The pass over the streams to read from runs as its steps say. -/
theorem ran_readActive (nowMs : ℕ) (t : Turn config) :
    Ran order (fun _ => PassOver .read (t.driver.active.entriesAscending.map Prod.fst)) t
      (readActive order nowMs t) := by
  have hwork : ∀ stream : String × ConnectionId, ∀ budget, Spending order .read [] budget
      (readPeer order (t.driver.active.entriesAscending.map Prod.fst) nowMs stream.1 stream.2
        maxReadyInputTurns budget : TurnM config ℕ) :=
    fun stream budget => spending_readPeer _ nowMs stream.1 stream.2 _ budget
  refine (Spending.forEachWithin hwork _ _ t).bind (fun _ t' _ => Quiet.pure () t') ?_
  intro left _ before after h h'
  exact ⟨left, by simpa using h.append (Spent.of_noPass h')⟩

/-- The pass over the streams to write to runs as its steps say. -/
theorem ran_flushQueues (nowMs : ℕ) (t : Turn config) :
    Ran order (fun _ => PassOver .flush (t.driver.active.entriesAscending.map Prod.fst)) t
      (flushQueues nowMs t) := by
  have hwork : ∀ stream : String × ConnectionId, ∀ budget, Spending order .flush [] budget (do
      let budget ← flushPeer nowMs stream.1 stream.2 budget budget
      modifyDriver fun d =>
        if (d.queues.lookup stream.1).any fun queue => queue.records.isEmpty then
          { d with queues := d.queues.erase stream.1 }
        else d
      pure budget : TurnM config ℕ) :=
    fun stream budget => .bind (spending_flushPeer nowMs stream.1 stream.2 budget budget)
      fun left => .quiet_bind (.modifyDriver _) fun _ => .pure left
  refine (Spending.forEachWithin hwork _ _ t).bind (fun _ t' _ => Quiet.pure () t') ?_
  intro left _ before after h h'
  exact ⟨left, by simpa using h.append (Spent.of_noPass h')⟩

/-! ### Reading keeps the selection -/

/-- A part of a turn that leaves the selected streams alone. -/
def KeepsActive (x : TurnM config α) : Prop := ∀ t, (x t).2.driver.active = t.driver.active

namespace KeepsActive

theorem bind {x : TurnM config α} {f : α → TurnM config β} (hx : KeepsActive x)
    (hf : ∀ a, KeepsActive (f a)) : KeepsActive (x >>= f) := by
  intro t
  have hx := hx t
  rcases h : x t with ⟨error | a, t'⟩
  · rw [bind_of_error h]
    rw [h] at hx
    exact hx
  · rw [bind_of_ok h, hf a t']
    rw [h] at hx
    exact hx

theorem callTcp (context : String) (call : τ → Except String α × τ) :
    KeepsActive (callTcp context call : TurnM config α) := by
  intro t
  unfold TurnM.callTcp
  rcases call t.driver.tcp with ⟨error | a, tcp⟩
  · rfl
  · rfl

theorem applyCall (event : FipsInvWantStream config.stream → TurnEvent config)
    (call : FipsInvWantStream config.stream →
      Except PubsubError (List (FipsInvWantStreamAction nostr)) × FipsInvWantStream config.stream) :
    KeepsActive (applyCall event call) := by
  refine KeepsActive.bind (fun t => rfl) fun actions t => ?_
  unfold applyActions
  dsimp only
  split
  · rfl
  · rfl

theorem forEachWithin {ι : Type} {body : ι → ℕ → TurnM config ℕ}
    (h : ∀ i budget, KeepsActive (body i budget)) :
    ∀ (l : List ι) (budget : ℕ), KeepsActive (forEachWithin body l budget)
  | [], _ => fun _ => rfl
  | i :: l, budget => (h i budget).bind fun rest => forEachWithin h l rest

end KeepsActive

/-- Reading a stream selects no other. -/
theorem keepsActive_readPeer (connectedPeers : List String) (nowMs : ℕ) (peer : String)
    (id : ConnectionId) : ∀ turns budget,
    KeepsActive (readPeer order connectedPeers nowMs peer id turns budget : TurnM config ℕ)
  | 0, _ => fun _ => rfl
  | turns + 1, budget => by
    have ih := keepsActive_readPeer connectedPeers nowMs peer id turns
    -- The same turns of the loop as in `spending_readPeer`; none of them touches the selection.
    refine KeepsActive.bind (fun _ => rfl) fun d => ?_
    split
    · exact (KeepsActive.applyCall _ _).bind fun _ => ih _
    refine KeepsActive.bind (fun _ => rfl) fun _ => ?_
    split
    · exact fun _ => rfl
    dsimp only
    split
    · exact fun _ => rfl
    refine (KeepsActive.callTcp _ _).bind fun bytes => ?_
    split
    · exact fun _ => rfl
    · exact KeepsActive.bind (fun _ => rfl) fun _ => KeepsActive.bind (fun _ => rfl) fun _ =>
        (KeepsActive.applyCall _ _).bind fun _ => ih _

/-- Nor does the pass over all of them. -/
theorem keepsActive_readActive (nowMs : ℕ) :
    KeepsActive (readActive order nowMs : TurnM config Unit) := by
  refine KeepsActive.bind (fun _ => rfl) fun d => ?_
  refine (KeepsActive.forEachWithin (fun stream budget => ?_) _ _).bind fun _ _ => rfl
  exact KeepsActive.bind (fun _ => rfl) fun _ => keepsActive_readPeer _ nowMs _ _ _ budget

/-! ## A whole turn -/

/-- Both passes spent their limit on these peers. -/
def PassesOver (peers : List String) (events : List (TurnEvent config)) : Prop :=
  ∀ pass, reachedPeers (passSteps pass events) = peers ∧
    Spends config.options.maxIoBytesPerDrive (passSteps pass events)

/-- Both passes spent their limit on the peers that the turn had selected. -/
def BothPasses (events : List (TurnEvent config)) : Prop :=
  ∃ peers, .selected peers ∈ events ∧ PassesOver peers events

theorem PassesOver.noPass_append {peers : List String} {before after : List (TurnEvent config)}
    (h : NoPass before) (h' : PassesOver peers after) : PassesOver peers (before ++ after) := by
  intro pass
  rw [passSteps_append, h pass, List.nil_append]
  exact h' pass

theorem BothPasses.noPass_append {before after : List (TurnEvent config)}
    (h : NoPass before) (h' : BothPasses after) : BothPasses (before ++ after) := by
  obtain ⟨peers, hselected, hpasses⟩ := h'
  exact ⟨peers, List.mem_append_right _ hselected, hpasses.noPass_append h⟩

/-- A read pass and then a flush pass. -/
theorem PassOver.append {peers : List String} {before after : List (TurnEvent config)}
    (h : PassOver .read peers before) (h' : PassOver .flush peers after) :
    PassesOver peers (before ++ after) := by
  obtain ⟨_, hread⟩ := h
  obtain ⟨_, hflush⟩ := h'
  intro pass
  rw [passSteps_append]
  cases pass with
  | read =>
    rw [hflush.other .read (by decide), List.append_nil]
    exact ⟨hread.peers, hread.spends⟩
  | flush =>
    rw [hread.other .flush (by decide), List.nil_append]
    exact ⟨hflush.peers, hflush.spends⟩

/-- The two passes of a turn and what it does after them. The flush pass goes over the same
streams as the read pass, since reading keeps the selection. -/
theorem ran_passes (nowMs : ℕ) {rest : TurnM config Unit} (hrest : Quiet order rest)
    (t : Turn config) :
    Ran order (fun _ => PassesOver (t.driver.active.entriesAscending.map Prod.fst)) t
      ((do readActive order nowMs; flushQueues nowMs; rest : TurnM config Unit) t) := by
  have hflush : ∀ u t', readActive order nowMs t = (.ok u, t') →
      Ran order (fun _ => PassOver .flush (t.driver.active.entriesAscending.map Prod.fst)) t'
        ((do flushQueues nowMs; rest : TurnM config Unit) t') := by
    intro u t' hread
    have hactive : (readActive order nowMs t).2.driver.active = t.driver.active :=
      keepsActive_readActive nowMs t
    rw [hread] at hactive
    rw [← hactive]
    refine (ran_flushQueues nowMs t').bind (fun _ t' _ => hrest t') ?_
    rintro _ _ before after ⟨left, h⟩ h'
    exact ⟨left, by simpa using h.append (Spent.of_noPass h')⟩
  exact (ran_readActive nowMs t).bind hflush fun _ _ _ _ => PassOver.append

/-- A turn from its first selection on. -/
theorem ran_selected (nowMs : ℕ) {rest : TurnM config Unit} (hrest : Quiet order rest)
    (t : Turn config) :
    Ran order (fun _ => BothPasses) t
      ((do noteSelection; readActive order nowMs; flushQueues nowMs; rest : TurnM config Unit)
        t) := by
  have hselected : Ran order (fun _ events => NoPass events ∧
      .selected (t.driver.active.entriesAscending.map Prod.fst) ∈ events) t
      (noteSelection t) := by
    have hevent : (.selected (t.driver.active.entriesAscending.map Prod.fst) :
        TurnEvent config).Sound order := trivial
    exact .noted hevent rfl rfl rfl ⟨fun _ => rfl, List.mem_singleton_self _⟩
  have hpasses : ∀ u t', noteSelection t = (.ok u, t') →
      Ran order (fun _ => PassesOver (t.driver.active.entriesAscending.map Prod.fst)) t'
        ((do readActive order nowMs; flushQueues nowMs; rest : TurnM config Unit) t') := by
    intro u t' hnote
    cases hnote
    exact ran_passes nowMs hrest _
  refine hselected.bind hpasses ?_
  rintro _ _ before after ⟨hbefore, hmem⟩ hafter
  exact ⟨_, List.mem_append_left _ hmem, hafter.noPass_append hbefore⟩

/-- A ready turn is a read pass and a write pass. -/
theorem ran_driveReady (nowMs : ℕ) (t : Turn config) :
    Ran order (fun _ => BothPasses) t (driveReady order nowMs t) := by
  have hquiet : ∀ {α : Type} {x : TurnM config α} {f : α → TurnM config Unit} (t : Turn config),
      Quiet order x →
        (∀ a t', x t = (.ok a, t') → Ran order (fun _ => BothPasses) t' (f a t')) →
          Ran order (fun _ => BothPasses) t ((x >>= f) t) :=
    fun t hx hf => (hx t).bind hf fun _ _ _ _ => BothPasses.noPass_append
  -- What comes before the passes is no part of them; then the first selection, the passes and the
  -- rest.
  refine hquiet t (.modifyDriver _) fun _ t _ => ?_
  refine hquiet t .getDriver fun d t _ => ?_
  refine hquiet t (quiet_acceptConnections _) fun _ t _ => ?_
  refine hquiet t (quiet_refreshActive nowMs) fun _ t _ => ran_selected nowMs ?_ t
  refine (quiet_finishRemoteCloses nowMs).bind fun _ => (quiet_refreshActive nowMs).bind ?_
  exact fun _ _ => .silent rfl rfl .nil

/-- Receiving datagrams is no part of a pass. -/
theorem quiet_receiveDatagrams (nowMs : ℕ) :
    Quiet order (receiveDatagrams nowMs : TurnM config Unit) := by
  intro t
  unfold receiveDatagrams
  generalize config.tcp.receiveReportFiltered t.driver.tcp nowMs filterPeer
    (t.driver.stream, none) = received
  obtain ⟨⟨received | received, tcp⟩, stream, policyError⟩ := received
  · exact .failed id rfl
  · cases policyError with
    | some error => exact .failed id rfl
    | none => exact .silent rfl rfl .nil

/-- So is every turn, the datagrams apart. -/
theorem ran_turn (kind : TurnKind) (nowMs : ℕ) (t : Turn config) :
    Ran order (fun _ => BothPasses) t (turn kind order nowMs t) := by
  cases kind with
  | receive =>
    exact (quiet_receiveDatagrams nowMs t).bind (fun _ t' _ => ran_driveReady nowMs t')
      fun _ _ _ _ => BothPasses.noPass_append
  | poll =>
    exact (Quiet.callTcp _ _ t).bind (fun _ t' _ => ran_driveReady nowMs t')
      fun _ _ _ _ => BothPasses.noPass_append

/-- A turn serves every peer and hands over every delivery iff nothing disturbs its steps. -/
theorem isolated_iff_undisturbed (kind : TurnKind) (order : RouteOrder) (nowMs : ℕ)
    (d : FipsInvWantTcpDriver config) :
    Isolated order (runTurn kind order nowMs d) ↔
      Undisturbed order (runTurn kind order nowMs d).2.trace := by
  have hran : Ran order (fun _ => BothPasses) { driver := d, report := {}, trace := [] }
      (turn kind order nowMs { driver := d, report := {}, trace := [] }) := ran_turn kind nowMs _
  unfold runTurn
  generalize turn kind order nowMs { driver := d, report := {}, trace := [] } = outcome at hran ⊢
  obtain ⟨events, htrace, hok, hdone⟩ := hran
  obtain ⟨error | _, t⟩ := outcome
  · -- a turn that fails returns no report, and one of its steps was not sound
    constructor
    · rintro ⟨report, peers, hreport, _⟩
      cases hreport
    · rintro ⟨hsound, _⟩
      rw [List.nil_append] at htrace
      rw [htrace] at hsound
      exact absurd (hok.mpr hsound) Bool.false_ne_true
  · obtain ⟨hdeliveries, peers, hselected, hpasses⟩ := hdone _ rfl
    rw [List.nil_append] at htrace hdeliveries
    subst htrace
    constructor
    · rintro ⟨report, peers', _, _, _, hserves⟩
      refine ⟨hok.mp rfl, fun pass => ?_⟩
      exact (servesAll_iff_affordable (hpasses pass).2).mp (hserves pass).2
    · rintro ⟨_, hafford⟩
      refine ⟨t.report, peers, rfl, hdeliveries, hselected, fun pass => ⟨(hpasses pass).1, ?_⟩⟩
      exact (servesAll_iff_affordable (hpasses pass).2).mpr (hafford pass)

end FipsInvWantTcpDriver

/-! ## A turn that fails over one peer -/

/-- An adapter with two established streams. Its state is the bytes that wait on the two. -/
def pairTcp : TcpEndpoint (List UInt8 × List UInt8) where
  accept t := (none, t)
  peer _ _ := none
  state _ id := if id = 1 ∨ id = 2 then some .established else none
  isReadClosed _ _ := false
  read t id readMax _ :=
    if id = 1 then (.ok (t.1.take readMax), (t.1.drop readMax, t.2))
    else (.ok (t.2.take readMax), (t.1, t.2.drop readMax))
  write t _ chunk _ := (.ok chunk.length, t)
  abort t _ := (.ok (), t)
  close t _ _ := (.ok (), t)
  poll t _ := (.ok (), t)
  receiveReportFiltered t _ _ _ s := ((.ok { datagrams := 0, rejected := 0 }, t), s)
  backlog _ := 0
  accept_lt _ _ _ h := by cases h
  abort_le _ _ := le_rfl
  read_le t id readMax nowMs bytes t' h := by
    split at h
    all_goals
      cases h
      exact List.length_take_le _ _
  write_le t id chunk nowMs accepted t' h := by
    cases h
    exact le_rfl

/-- A driver over these streams with default options. -/
def pairConfig : DriverConfig noteCrate Unit (List UInt8 × List UInt8) where
  stream := noteConfig
  tcp := pairTcp
  options := {}
  localNpub := "z"

/-- The two streams selected for the peers `a` and `b`, with these bytes waiting on them. -/
def pairDriver (fromA fromB : List UInt8) : FipsInvWantTcpDriver pairConfig where
  tcp := (fromA, fromB)
  stream := noteStream
  connections := ((∅ : Finmap fun _ : ConnectionId => TrackedConnection).insert 1
    { peer := "a", direction := .inbound }).insert 2 { peer := "b", direction := .inbound }
  active := ((∅ : Table ConnectionId).insert "a" 1).insert "b" 2
  queues := ∅

/-- Peer `a` announces a note and sends it. -/
def noteBytes : List UInt8 := noteRecord (noteInventory noteA) ++ noteRecord (noteFrame noteA)

/-- A record with nothing in it. -/
def emptyRecord : List UInt8 := LengthPrefix.frame lengthPrefixBytes []

/-- The turn in which `a` sends the note and `b` an empty record. -/
def badRecordTurn :
    Except PubsubError (FipsInvWantTcpDriveReport noteCrate) × Turn pairConfig :=
  FipsInvWantTcpDriver.runTurn .poll (.ascending _) 10 (pairDriver noteBytes emptyRecord)

/-- The stream delivers the note of `a`; then the record of `b` ends the turn with an error. The
adapter did not fail, no report is returned, and nothing is flushed to either peer. -/
theorem not_isolated_badRecord :
    (badRecordTurn.2.trace.flatMap (TurnEvent.deliveries (.ascending _))).length = 1 ∧
      badRecordTurn.1.isOk = false ∧
      badRecordTurn.2.trace.all (fun event => match event with
        | .tcpFailed => false
        | _ => true) = true ∧
      passSteps .flush badRecordTurn.2.trace = [] ∧
      ¬Isolated (.ascending _) badRecordTurn := by
  have hturn : (badRecordTurn.2.trace.flatMap (TurnEvent.deliveries (.ascending _))).length = 1 ∧
      badRecordTurn.1.isOk = false ∧
      badRecordTurn.2.trace.all (fun event => match event with
        | .tcpFailed => false
        | _ => true) = true ∧
      passSteps .flush badRecordTurn.2.trace = [] := by
    decide +kernel
  obtain ⟨hdelivered, hfails, hadapter, hflushed⟩ := hturn
  refine ⟨hdelivered, hfails, hadapter, hflushed, ?_⟩
  rintro ⟨report, peers, hreport, _⟩
  rw [hreport] at hfails
  cases hfails

end NostrPubsub
