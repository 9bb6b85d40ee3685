import NostrPubsub.WireTcp.Framing

/-!
# Runs of the wire driver lose no frame

Every call of the driver keeps, for each peer, what was queued for it and written on its connections
in step with its queue (`Framed`). The calls that queue, write and change streams leave events in the
trace, and each keeps its own part; the other calls leave the queues alone.
-/

open NostrPubsub.WireTcp.PeerQueue (Holds wire unsent consume)

namespace NostrPubsub.WireTcp

/-! ## Histories -/

/-- A connection to a peer, with what was written on it. A stream that would be selected a second time
counts as a new one: the adapter does not open a connection again under its id. -/
structure Connection where
  id : Option ConnectionId
  bytes : List UInt8

/-- The frames that were queued for a peer since it was last forgotten, and its connections since. -/
structure History where
  queued : List (List UInt8) := []
  connections : List Connection := []

namespace History

/-- Bytes are written: they belong to the last connection if they are written on it. -/
def write (h : History) (id : ConnectionId) (bytes : List UInt8) : History :=
  match h.connections.getLast? with
  | none => { h with connections := [⟨some id, bytes⟩] }
  | some last =>
    if last.id = some id then
      { h with connections := h.connections.dropLast ++ [⟨some id, last.bytes ++ bytes⟩] }
    else { h with connections := h.connections ++ [⟨some id, bytes⟩] }

/-- The history of a peer after an event. -/
def step (peer : String) (h : History) : WireEvent → History
  | .queued peer' frame =>
    if peer' = peer then { h with queued := h.queued ++ [frame] } else h
  | .wrote peer' id bytes => if peer' = peer then h.write id bytes else h
  | .changed peer' next =>
    if peer' = peer then { h with connections := h.connections ++ [⟨next, []⟩] } else h
  | .forgotten peer' => if peer' = peer then {} else h
  | .reading _ => h
  | .read _ _ => h
  | .rejected _ => h

/-- The history of a peer in a trace. -/
def ofTrace (peer : String) (trace : List WireEvent) : History := trace.foldl (step peer) {}

theorem ofTrace_concat (peer : String) (trace : List WireEvent) (event : WireEvent) :
    ofTrace peer (trace ++ [event]) = (ofTrace peer trace).step peer event := by
  rw [ofTrace, List.foldl_append]
  rfl

/-- The connection in use. -/
def currentId (h : History) : Option ConnectionId := h.connections.getLast?.bind Connection.id

end History

/-- The queue of a peer and its selected stream are in step with the history. -/
structure Framed (frameCapacity : ℕ) (h : History) (queue : Option PeerQueue)
    (active : Option ConnectionId) : Prop where
  sent : ∃ rest offset, SentOn h.queued (h.connections.map Connection.bytes) rest offset ∧
    Holds ((queue.map PeerQueue.records).getD []) rest offset
  current : h.currentId = active
  fits : Fits frameCapacity h.queued

namespace Framed

variable {frameCapacity : ℕ} {h : History} {queue : PeerQueue} {active : Option ConnectionId}

theorem new (frameCapacity : ℕ) : Framed frameCapacity {} none none where
  sent := ⟨[], 0, .nil, .nil⟩
  current := rfl
  fits _ hframe := absurd hframe List.not_mem_nil

/-- An empty queue is as good as none. -/
theorem of_empty (hframed : Framed frameCapacity h (some queue) active)
    (hempty : queue.records = []) : Framed frameCapacity h none active := by
  obtain ⟨⟨rest, offset, hsent, hholds⟩, hcurrent, hfits⟩ := hframed
  rw [Option.map_some, Option.getD_some, hempty] at hholds
  exact ⟨⟨rest, offset, hsent, hholds⟩, hcurrent, hfits⟩

theorem to_empty (hframed : Framed frameCapacity h none active) :
    Framed frameCapacity h (some {}) active :=
  ⟨hframed.sent, hframed.current, hframed.fits⟩

/-- A frame is queued. -/
theorem push (hframed : Framed frameCapacity h (some queue) active) {frame : List UInt8}
    (hshort : frame.length < 256 ^ 4) (hbound : frame.length ≤ frameCapacity) {bytes : ℕ} :
    Framed frameCapacity { h with queued := h.queued ++ [frame] }
      (some { records := queue.records ++ [{ bytes := recordOf frame, offset := 0 }], bytes })
      active := by
  obtain ⟨⟨rest, offset, hsent, hholds⟩, hcurrent, hfits⟩ := hframed
  refine ⟨⟨rest ++ [frame], offset, hsent.push frame, hholds.push frame⟩, hcurrent, ?_⟩
  intro frame' hframe'
  rcases List.mem_append.mp hframe' with hframe' | hframe'
  · exact hfits frame' hframe'
  · rw [List.mem_singleton.mp hframe']
    exact ⟨hshort, hbound⟩

/-- The stream changes, and the queue starts again. -/
theorem change {queue : Option PeerQueue} (hframed : Framed frameCapacity h queue active)
    (next : Option ConnectionId) :
    Framed frameCapacity { h with connections := h.connections ++ [⟨next, []⟩] }
      (queue.map PeerQueue.restart) next := by
  obtain ⟨⟨rest, offset, hsent, hholds⟩, -, hfits⟩ := hframed
  refine ⟨⟨rest, 0, ?_, ?_⟩, ?_, hfits⟩
  · rw [List.map_append]
    exact hsent.connect
  · cases queue with
    | none =>
      cases hholds
      exact .nil
    | some queue => exact hholds.restart
  · simp [History.currentId]

/-- Bytes of the queue are written to the selected stream. -/
theorem write {id : ConnectionId} (hframed : Framed frameCapacity h (some queue) (some id)) {n : ℕ}
    (hn : n ≤ (unsent queue.records).length) {bytes : ℕ} :
    Framed frameCapacity (h.write id ((unsent queue.records).take n))
      (some { records := consume queue.records n, bytes }) (some id) := by
  obtain ⟨⟨rest, offset, hsent, hholds⟩, hcurrent, hfits⟩ := hframed
  rcases List.eq_nil_or_concat h.connections with hnil | ⟨earlier, last, hlast⟩
  · simp [History.currentId, hnil] at hcurrent
  · rw [List.concat_eq_append] at hlast
    have hid : last.id = some id := by simpa [History.currentId, hlast] using hcurrent
    have hwrite : h.write id ((unsent queue.records).take n) = { h with
        connections := earlier ++ [⟨some id, last.bytes ++ (unsent queue.records).take n⟩] } := by
      simp [History.write, hlast, hid]
    rw [hlast, List.map_append, List.map_singleton] at hsent
    obtain ⟨rest', offset', hsent', hholds'⟩ := hsent.write hholds hn
    rw [hwrite]
    refine ⟨⟨rest', offset', ?_, hholds'⟩, ?_, hfits⟩
    · rwa [List.map_append]
    · simp [History.currentId]

end Framed

/-! ## Calls -/

variable {τ : Type}

namespace WireTcpDriver

open WireM

/-- The queues and the selected streams are in step with the trace. -/
def InStep (config : WireConfig τ) (t : WireTurn τ) : Prop :=
  ∀ peer, Framed config.options.frameCapacity (History.ofTrace peer t.trace)
    (t.driver.queues.lookup peer) (t.driver.active.lookup peer)

variable {config : WireConfig τ}

theorem InStep.of_eq {t t' : WireTurn τ} (h : InStep config t)
    (htrace : ∀ peer, History.ofTrace peer t'.trace = History.ofTrace peer t.trace)
    (hqueues : t'.driver.queues = t.driver.queues) (hactive : t'.driver.active = t.driver.active) :
    InStep config t' := by
  intro peer
  rw [htrace, hqueues, hactive]
  exact h peer

theorem inStep_modifyDriver {change : WireTcpDriver τ → WireTcpDriver τ}
    (hqueues : ∀ d, (change d).queues = d.queues) (hactive : ∀ d, (change d).active = d.active) :
    Preserves (InStep config) (modifyDriver change) := fun t h =>
  h.of_eq (fun _ => rfl) (hqueues t.driver) (hactive t.driver)

theorem inStep_callTcp {α : Type} (context : String) (call : τ → Except String α × τ) :
    Preserves (InStep config) (callTcp context call) := fun _ h => h.of_eq (fun _ => rfl) rfl rfl

theorem inStep_note {event : WireEvent} (hsilent : ∀ peer h, History.step peer h event = h) :
    Preserves (InStep config) (note event) := fun t h =>
  h.of_eq (fun peer => (History.ofTrace_concat peer t.trace event).trans (hsilent peer _)) rfl rfl

theorem inStep_check (result : Except PubsubError Unit) :
    Preserves (InStep config) (check result : WireM τ Unit) := by
  cases result with
  | ok _ => exact preserves_pure ()
  | error error => exact preserves_fail error

/-! ### Changes of streams -/

theorem lookup_restartQueue (d : WireTcpDriver τ) (peer other : String) :
    (d.restartQueue peer).queues.lookup other
      = if other = peer then (d.queues.lookup peer).map PeerQueue.restart
        else d.queues.lookup other := by
  by_cases hpeer : other = peer
  · subst hpeer
    rw [if_pos rfl]
    cases hqueue : d.queues.lookup other with
    | none => simp [restartQueue, hqueue]
    | some queue => simp [restartQueue, hqueue]
  · rw [if_neg hpeer]
    cases hqueue : d.queues.lookup peer with
    | none => simp [restartQueue, hqueue]
    | some queue => simp [restartQueue, hqueue, Finmap.lookup_insert_of_ne _ hpeer]

theorem restartQueue_active (d : WireTcpDriver τ) (peer : String) :
    (d.restartQueue peer).active = d.active := by
  unfold restartQueue
  split <;> rfl

/-- The stream of a peer changes: the others do not notice, and its queue starts again. -/
theorem framed_restart {d : WireTcpDriver τ} {trace : List WireEvent} {other : String}
    {active : Option ConnectionId} (peer : String) (next : Option ConnectionId)
    (h : Framed config.options.frameCapacity (History.ofTrace other trace) (d.queues.lookup other)
      active) :
    Framed config.options.frameCapacity (History.ofTrace other (trace ++ [.changed peer next]))
      ((d.restartQueue peer).queues.lookup other) (if other = peer then next else active) := by
  rw [History.ofTrace_concat, lookup_restartQueue]
  by_cases hpeer : other = peer
  · subst hpeer
    rw [if_pos rfl, if_pos rfl, History.step, if_pos rfl]
    exact h.change next
  · rw [if_neg hpeer, if_neg hpeer, History.step, if_neg (Ne.symm hpeer)]
    exact h

theorem lookup_erase_ite {ν : Type} (table : Table ν) (peer other : String) :
    (table.erase peer).lookup other = if other = peer then none else table.lookup other := by
  by_cases hpeer : other = peer
  · rw [if_pos hpeer, hpeer, Finmap.lookup_erase]
  · rw [if_neg hpeer, Finmap.lookup_erase_ne hpeer]

/-- Aborting a peer ends its connection, whatever it was. -/
theorem framed_abortPeer {t : WireTurn τ} {peer other : String} {active : Option ConnectionId}
    (h : Framed config.options.frameCapacity (History.ofTrace other t.trace)
      (t.driver.queues.lookup other) active)
    (hother : other ≠ peer → active = t.driver.active.lookup other) :
    Framed config.options.frameCapacity (History.ofTrace other (abortPeer config peer t).2.trace)
      ((abortPeer config peer t).2.driver.queues.lookup other)
      ((abortPeer config peer t).2.driver.active.lookup other) := by
  have hactive : (abortPeer config peer t).2.driver.active = t.driver.active.erase peer :=
    restartQueue_active _ _
  have hlookup : (t.driver.active.erase peer).lookup other
      = if other = peer then none else active := by
    rw [lookup_erase_ite]
    by_cases hpeer : other = peer
    · rw [if_pos hpeer, if_pos hpeer]
    · rw [if_neg hpeer, if_neg hpeer, hother hpeer]
  rw [hactive, hlookup]
  exact framed_restart peer none h

theorem inStep_abortPeer (peer : String) : Preserves (InStep config) (abortPeer config peer) :=
  fun _ h other => framed_abortPeer (h other) fun _ => rfl

/-- A forgotten peer has no history any more. -/
theorem inStep_forgetPeer (peer : String) : Preserves (InStep config) (forgetPeer config peer) := by
  intro t h other
  rw [forgetPeer, modifyDriver_bind, note_bind]
  by_cases hpeer : other = peer
  · subst hpeer
    have hnew : Framed config.options.frameCapacity
        (History.ofTrace other (t.trace ++ [.forgotten other]))
        ((t.driver.queues.erase other).lookup other) none := by
      rw [History.ofTrace_concat, History.step, if_pos rfl, Finmap.lookup_erase]
      exact .new _
    exact framed_abortPeer hnew fun hne => absurd rfl hne
  · refine framed_abortPeer ?_ fun _ => rfl
    rw [History.ofTrace_concat, History.step, if_neg (Ne.symm hpeer), Finmap.lookup_erase_ne hpeer]
    exact h other

/-- The streams of some peers are still to be changed to the selected ones. -/
def Changing (config : WireConfig τ) (remaining : List String) (next : Table ConnectionId)
    (t : WireTurn τ) : Prop :=
  t.driver.active = next ∧ ∀ peer, ∃ active, (peer ∉ remaining → active = next.lookup peer) ∧
    Framed config.options.frameCapacity (History.ofTrace peer t.trace) (t.driver.queues.lookup peer)
      active

theorem Changing.activatePeer {remaining : List String} {next : Table ConnectionId} {peer : String}
    {t : WireTurn τ} (h : Changing config (peer :: remaining) next t) :
    Changing config remaining next (activatePeer next peer t).2 := by
  obtain ⟨hactive, hframed⟩ := h
  refine ⟨(restartQueue_active _ _).trans hactive, fun other => ?_⟩
  obtain ⟨active, hsame, hother⟩ := hframed other
  refine ⟨_, fun hnot => ?_, framed_restart peer (next.lookup peer) hother⟩
  by_cases hpeer : other = peer
  · rw [if_pos hpeer, hpeer]
  · rw [if_neg hpeer]
    exact hsame fun hmem => (List.mem_cons.mp hmem).elim hpeer hnot

theorem Changing.forEach {next : Table ConnectionId} (remaining : List String) {t : WireTurn τ}
    (h : Changing config remaining next t) :
    InStep config (forEach (WireTcpDriver.activatePeer next) remaining t).2 := by
  induction remaining generalizing t with
  | nil =>
    intro peer
    obtain ⟨active, hsame, hframed⟩ := h.2 peer
    obtain rfl := hsame List.not_mem_nil
    rwa [← h.1] at hframed
  | cons peer remaining ih => exact ih h.activatePeer

theorem lookup_eq_of_notMem_changedPeers {active next : Table ConnectionId} {peer : String}
    (h : peer ∉ changedPeers active next) : active.lookup peer = next.lookup peer := by
  by_contra hne
  refine h (List.mem_filter.mpr ⟨Finset.mem_ascending.mpr ?_, decide_eq_true hne⟩)
  rw [Finset.mem_union, Finmap.mem_keys, Finmap.mem_keys]
  by_contra hnone
  rw [not_or] at hnone
  exact hne ((Finmap.lookup_eq_none.mpr hnone.1).trans (Finmap.lookup_eq_none.mpr hnone.2).symm)

/-- The selected streams stay as they are. -/
theorem active_modifyDriver {active : Table ConnectionId} {change : WireTcpDriver τ → WireTcpDriver τ}
    (hactive : ∀ d, (change d).active = d.active) :
    Preserves (fun t : WireTurn τ => t.driver.active = active) (modifyDriver change) :=
  fun t h => (hactive t.driver).trans h

theorem active_callTcp {active : Table ConnectionId} {α : Type} (context : String)
    (call : τ → Except String α × τ) :
    Preserves (fun t : WireTurn τ => t.driver.active = active) (callTcp context call) := fun _ h => h

theorem inStep_refreshActive : Preserves (InStep config) (refreshActive config) := by
  intro t h
  rw [refreshActive, getDriver_bind]
  split
  · exact h
  · rw [modifyDriver_bind, getDriver_bind]
    have hdedup : Preserves (fun t' => InStep config t' ∧ t'.driver.active = t.driver.active)
        (forEach (fun id => do
          callTcp "deduplicate TCP/FIPS pubsub stream" fun tcp => config.endpoint.abort tcp id
          modifyDriver fun d => { d with connections := d.connections.erase id } : _ → WireM τ Unit)
          (view config { t.driver with
            connections := retainLive (config.endpoint.state t.driver.tcp)
              t.driver.connections }).extras) := by
      refine preserves_forEach (fun id => ?_) _
      refine ((inStep_callTcp _ _).and (active_callTcp _ _)).bind fun _ => ?_
      exact (inStep_modifyDriver (fun _ => rfl) fun _ => rfl).and (active_modifyDriver fun _ => rfl)
    refine hdedup.bind_to (fun _ h => h.1) (fun _ t₂ h₂ => ?_) ⟨h.of_eq (fun _ => rfl) rfl rfl, rfl⟩
    rw [modifyDriver_bind, bind_pure_state]
    refine Changing.forEach _ ⟨rfl, fun peer => ⟨t.driver.active.lookup peer, ?_, ?_⟩⟩
    · exact lookup_eq_of_notMem_changedPeers
    · rw [← h₂.2]
      exact h₂.1 peer

/-! ### Queueing and writing -/

theorem framed_insert {t : WireTurn τ} {peer : String} {queue : PeerQueue} {event : WireEvent}
    (h : InStep config t) (hevent : ∀ other history, other ≠ peer → History.step other history event = history)
    (hpeer : Framed config.options.frameCapacity
      ((History.ofTrace peer t.trace).step peer event) (some queue) (t.driver.active.lookup peer)) :
    InStep config
      { driver := { t.driver with queues := t.driver.queues.insert peer queue }
        trace := t.trace ++ [event] } := by
  intro other
  by_cases hother : other = peer
  · subst hother
    rw [History.ofTrace_concat, Finmap.lookup_insert]
    exact hpeer
  · rw [History.ofTrace_concat, hevent other _ hother, Finmap.lookup_insert_of_ne _ hother]
    exact h other

/-- A queue that is not there is an empty one. -/
theorem InStep.getQueue {t : WireTurn τ} (h : InStep config t) (peer : String) :
    Framed config.options.frameCapacity (History.ofTrace peer t.trace)
      (some ((t.driver.queues.lookup peer).getD {})) (t.driver.active.lookup peer) := by
  have hpeer := h peer
  cases hqueue : t.driver.queues.lookup peer with
  | none =>
    rw [hqueue] at hpeer
    exact hpeer.to_empty
  | some queue =>
    rw [hqueue] at hpeer
    exact hpeer

theorem inStep_queueFrame (peer : String) (frame : List UInt8) :
    Preserves (InStep config) (queueFrame config peer frame) := by
  intro t h
  have hcheck : ∀ result : Except PubsubError Unit, Preserves (· = t) (check result : WireM τ Unit) := by
    rintro (error | _)
    · exact preserves_fail error
    · exact preserves_pure ()
  rw [queueFrame, getDriver_bind]
  refine (hcheck _).bind_to (fun _ heq => heq ▸ h) (fun _ t₁ ht₁ => ?_) rfl
  subst ht₁
  by_cases hlong : config.options.frameCapacity < frame.length
  · rw [if_pos hlong]
    exact h
  rw [if_neg hlong]
  by_cases hwide : frame.length ≤ u32Max
  · rw [encodeRecord, if_pos hwide]
    dsimp only
    -- a refused frame leaves at most an empty queue
    have hqueue : InStep config { t₁ with driver := { t₁.driver with
        queues := t₁.driver.queues.insert peer ((t₁.driver.queues.lookup peer).getD {}) } } := by
      intro other
      by_cases hother : other = peer
      · subst hother
        rw [Finmap.lookup_insert]
        exact h.getQueue other
      · rw [Finmap.lookup_insert_of_ne _ hother]
        exact h other
    refine state_ite (fun _ => h) fun _ => ?_
    rw [modifyDriver_bind]
    refine state_ite (fun _ => hqueue) fun _ => state_ite (fun _ => hqueue) fun _ => ?_
    refine framed_insert hqueue (fun other history hother => ?_) ?_
    · rw [History.step, if_neg (Ne.symm hother)]
    · rw [History.step, if_pos rfl]
      refine (h.getQueue peer).push ?_ (Nat.le_of_not_lt hlong)
      rw [u32Max] at hwide
      omega
  · rw [encodeRecord, if_neg hwide]
    exact h

/-- The state while the queues are written: the selected streams are these. -/
abbrev Writing (config : WireConfig τ) (active : Table ConnectionId) (t : WireTurn τ) : Prop :=
  InStep config t ∧ t.driver.active = active

theorem writing_flushPeer {active : Table ConnectionId} {nowMs : ℕ} {peer : String}
    {id : ConnectionId} (hid : active.lookup peer = some id) (fuel budget : ℕ) :
    Preserves (Writing config active) (flushPeer config nowMs peer id fuel budget) := by
  induction fuel generalizing budget with
  | zero => exact preserves_pure budget
  | succ fuel ih =>
    rw [flushPeer]
    refine preserves_ite (preserves_pure budget) ?_
    intro t h
    rw [getDriver_bind]
    rcases hqueue : t.driver.queues.lookup peer with _ | queue
    · exact h
    dsimp only
    split
    · exact h
    · generalize hchunk : (unsent queue.records).take (min ioChunkBytes budget) = chunk
      rw [bind_apply]
      have hcalled := (inStep_callTcp "write TCP/FIPS pubsub stream" fun tcp =>
        config.endpoint.write tcp id chunk nowMs) t h.1
      rcases hcall : callTcp "write TCP/FIPS pubsub stream"
        (fun tcp => config.endpoint.write tcp id chunk nowMs) t with ⟨error | accepted, t₁⟩
      · rw [hcall] at hcalled
        exact ⟨hcalled, by rw [← h.2, ← show _ = t₁ from congrArg Prod.snd hcall]; rfl⟩
      · rw [hcall] at hcalled
        obtain ⟨tcp, hwrite, rfl⟩ := callTcp_eq_ok hcall
        have haccepted := config.endpoint.write_le _ _ _ _ _ _ hwrite
        dsimp only
        split
        · exact ⟨hcalled, h.2⟩
        · refine ih (budget - accepted) _ ⟨framed_insert hcalled (fun other history hother => ?_) ?_, h.2⟩
          · rw [History.step, if_neg (Ne.symm hother)]
          · have hpeer := h.1 peer
            rw [hqueue, h.2, hid] at hpeer
            have hlength : accepted ≤ min (min ioChunkBytes budget) (unsent queue.records).length := by
              rwa [← hchunk, List.length_take] at haccepted
            have htake : chunk.take accepted = (unsent queue.records).take accepted := by
              rw [← hchunk, List.take_take, min_eq_left (hlength.trans (min_le_left _ _))]
            dsimp only
            rw [History.step, if_pos rfl, List.length_take, min_eq_left haccepted, htake, h.2, hid]
            exact hpeer.write (hlength.trans (min_le_right _ _))

theorem writing_dropEmptyQueue {active : Table ConnectionId} (peer : String) :
    Preserves (Writing config active)
      (modifyDriver fun d => d.dropEmptyQueue peer : WireM τ Unit) := by
  intro t h
  by_cases hempty : (t.driver.queues.lookup peer).any fun queue => queue.records.isEmpty
  · have hdrop : t.driver.dropEmptyQueue peer
        = { t.driver with queues := t.driver.queues.erase peer } := if_pos hempty
    refine ⟨fun other => ?_, ?_⟩
    · rw [modifyDriver, hdrop]
      by_cases hother : other = peer
      · subst hother
        obtain ⟨queue, hqueue, hrecords⟩ := (Option.any_eq_true _ _).mp hempty
        have hpeer := h.1 other
        rw [hqueue] at hpeer
        rw [Finmap.lookup_erase]
        exact hpeer.of_empty (List.isEmpty_iff.mp hrecords)
      · rw [Finmap.lookup_erase_ne hother]
        exact h.1 other
    · rw [modifyDriver, hdrop]
      exact h.2
  · have hkeep : t.driver.dropEmptyQueue peer = t.driver := if_neg hempty
    rw [modifyDriver, hkeep]
    exact h

theorem writing_flushStreams {active : Table ConnectionId} {nowMs : ℕ}
    {streams : List (String × ConnectionId)}
    (hstreams : ∀ stream ∈ streams, active.lookup stream.1 = some stream.2) (budget : ℕ) :
    Preserves (Writing config active) (flushStreams config nowMs streams budget) := by
  induction streams generalizing budget with
  | nil => exact preserves_pure budget
  | cons stream streams ih =>
    refine (writing_flushPeer (hstreams stream List.mem_cons_self) budget budget).bind fun budget => ?_
    refine (writing_dropEmptyQueue stream.1).bind fun _ => ?_
    exact ih (fun stream hstream => hstreams stream (List.mem_cons_of_mem _ hstream)) budget

theorem inStep_flushQueues (nowMs alreadyWritten : ℕ) :
    Preserves (InStep config) (flushQueues config nowMs alreadyWritten) := by
  intro t h
  rw [flushQueues, getDriver_bind]
  refine state_ite (fun _ => h) fun _ => ?_
  have hstreams : ∀ stream ∈ t.driver.active.entriesAscending,
      t.driver.active.lookup stream.1 = some stream.2 := fun _ => Table.mem_entriesAscending.mp
  refine (writing_flushStreams hstreams _).bind_to (fun _ h => h.1) (fun budget t₁ h₁ => ?_) ⟨h, rfl⟩
  rw [modifyDriver_bind]
  exact h₁.1.of_eq (fun _ => rfl) rfl rfl

/-! ### The other calls -/

theorem inStep_acceptConnections (backlog : ℕ) :
    Preserves (InStep config) (acceptConnections config backlog) := by
  induction backlog with
  | zero => exact preserves_pure ()
  | succ backlog ih =>
    refine (inStep_callTcp _ _).bind fun accepted => ?_
    cases accepted with
    | none => exact preserves_pure ()
    | some id =>
      refine preserves_getDriver.bind fun d => ?_
      cases config.endpoint.peer d.tcp id with
      | none => exact preserves_fail _
      | some peer =>
        refine preserves_getDriver.bind fun d => ?_
        cases d.ensurePeerCapacity config peer with
        | error _ => exact (inStep_callTcp _ _).bind fun _ => ih
        | ok _ =>
          refine (inStep_modifyDriver (fun d => ?_) fun d => ?_).bind fun _ => ih
          · split <;> rfl
          · split <;> rfl

theorem inStep_connectPeer (peer : String) (isWaiting : Bool) (nowMs : ℕ) :
    Preserves (InStep config) (connectPeer config peer isWaiting nowMs) := by
  refine preserves_getDriver.bind fun d => (inStep_check _).bind fun _ => ?_
  refine preserves_ite (preserves_pure ()) (preserves_ite (preserves_fail _)
    (preserves_ite (preserves_pure ()) ?_))
  refine (inStep_check _).bind fun _ => (inStep_callTcp _ _).bind fun id => ?_
  exact inStep_modifyDriver (fun _ => rfl) fun _ => rfl

theorem inStep_selectPeers (peers expired : Finset String) :
    Preserves (InStep config) (selectPeers config peers expired) := by
  refine preserves_getDriver.bind fun d => (inStep_modifyDriver ?_ ?_).bind fun _ => ?_
  · exact fun _ => rfl
  · exact fun _ => rfl
  refine (preserves_forEach (fun peer => ?_) _).bind fun _ => ?_
  · exact preserves_ite (preserves_pure ()) (inStep_forgetPeer peer).ignoreError
  refine preserves_getDriver.bind fun d => (inStep_modifyDriver ?_ ?_).bind fun _ => ?_
  · exact fun _ => rfl
  · exact fun _ => rfl
  exact (preserves_forEach (fun peer => (inStep_forgetPeer peer).ignoreError) _).bind
    fun _ => preserves_pure _

theorem inStep_finishRemoteCloses (nowMs : ℕ) :
    Preserves (InStep config) (finishRemoteCloses config nowMs) :=
  preserves_getDriver.bind fun _ => preserves_forEach (fun _ => inStep_callTcp _ _) _

theorem inStep_takeDecoded (peer : String) (id : ConnectionId) (decoder : RecordDecoder)
    (r : Reading) : Preserves (InStep config) (takeDecoded config peer id decoder r) := by
  have hnote : Preserves (InStep config) (note (.rejected id)) := inStep_note fun _ _ => rfl
  refine (inStep_modifyDriver ?_ ?_).bind fun _ => preserves_getDriver.bind fun d => ?_
  · exact fun _ => rfl
  · exact fun _ => rfl
  cases config.endpoint.peer d.tcp id with
  | none => exact preserves_fail _
  | some identity =>
    cases (decoder.take (config.options.driveFrames - r.frames.length)).1 with
    | error _ => exact hnote.bind fun _ => (inStep_abortPeer identity).bind fun _ => preserves_pure _
    | ok decoded => exact preserves_pure _

theorem inStep_readChunk (nowMs : ℕ) (peer : String) (id : ConnectionId) (decoder : RecordDecoder)
    (r : Reading) : Preserves (InStep config) (readChunk config nowMs peer id decoder r) := by
  refine (inStep_modifyDriver ?_ ?_).bind fun _ => preserves_ite (preserves_pure _) ?_
  · exact fun _ => rfl
  · exact fun _ => rfl
  refine (inStep_callTcp _ _).bind fun bytes => ?_
  have hnote : Preserves (InStep config) (note (.read id bytes)) := inStep_note fun _ _ => rfl
  refine hnote.bind fun _ => preserves_ite (preserves_pure _) ?_
  refine (inStep_modifyDriver ?_ ?_).bind fun _ => (inStep_check _).bind fun _ => preserves_pure _
  · exact fun _ => rfl
  · exact fun _ => rfl

theorem inStep_readPeer (nowMs : ℕ) (peer : String) (id : ConnectionId) (turns : ℕ) (r : Reading) :
    Preserves (InStep config) (readPeer config nowMs peer id turns r) := by
  induction turns generalizing r with
  | zero => exact preserves_pure _
  | succ turns ih =>
    refine preserves_ite (preserves_pure _) (preserves_getDriver.bind fun d => ?_)
    refine preserves_ite ?_ (preserves_ite (preserves_pure _) ?_)
    · refine (inStep_takeDecoded peer id _ r).bind fun result => ?_
      cases result with
      | none => exact preserves_pure _
      | some r => exact ih r
    · refine (inStep_readChunk nowMs peer id _ r).bind fun result => ?_
      cases result with
      | none => exact preserves_pure _
      | some r => exact ih r

theorem inStep_readStreams (nowMs : ℕ) (streams : List (String × ConnectionId)) (r : Reading) :
    Preserves (InStep config) (readStreams config nowMs streams r) := by
  induction streams generalizing r with
  | nil => exact preserves_pure r
  | cons stream streams ih =>
    obtain ⟨peer, id⟩ := stream
    refine (inStep_readPeer nowMs peer id config.maxReadyInputTurns r).bind fun result => ?_
    obtain ⟨streamEnd, r⟩ := result
    cases streamEnd with
    | aborted => exact ih r
    | finished turnsLeft =>
      refine (inStep_modifyDriver ?_ ?_).bind fun _ => ih r
      · exact fun _ => rfl
      · exact fun _ => rfl

theorem inStep_readActive (nowMs : ℕ) : Preserves (InStep config) (readActive config nowMs) := by
  refine preserves_getDriver.bind fun d => ?_
  have hnote : Preserves (InStep config) (note (.reading d.active.entriesAscending)) :=
    inStep_note fun _ _ => rfl
  exact hnote.bind fun _ => (inStep_readStreams nowMs _ _).bind fun _ => preserves_pure _

theorem inStep_driveReady (nowMs : ℕ) : Preserves (InStep config) (driveReady config nowMs) := by
  refine (inStep_modifyDriver ?_ ?_).bind fun _ => preserves_getDriver.bind fun d => ?_
  · exact fun _ => rfl
  · exact fun _ => rfl
  refine (inStep_acceptConnections _).bind fun _ => inStep_refreshActive.bind fun _ => ?_
  refine (inStep_readActive nowMs).bind fun _ => (inStep_flushQueues nowMs 0).bind fun _ => ?_
  refine (inStep_finishRemoteCloses nowMs).bind fun _ => inStep_refreshActive.bind fun _ => ?_
  refine preserves_getDriver.bind fun d => ?_
  refine (preserves_forEach (fun peer => (inStep_forgetPeer peer).ignoreError) _).bind fun _ => ?_
  exact preserves_getDriver.bind fun _ => preserves_pure _

/-! ## Runs -/

/-- A call of the driver, or new input: the state of the adapter and the inbound clients when it has
received. -/
inductive WireCall (τ : Type) where
  | queueFrame (peer : String) (frame : List UInt8)
  | connectPeer (peer : String) (isWaiting : Bool) (nowMs : ℕ)
  | selectPeers (peers expired : Finset String)
  | abortPeer (peer : String)
  | forgetPeer (peer : String)
  | flushQueues (nowMs alreadyWritten : ℕ)
  | acceptConnections
  | refreshActive
  | input (tcp : τ) (inbound : Finset String)
  | driveReady (nowMs : ℕ)

/-- What a call does. A call that fails leaves what it did. -/
def WireCall.run (config : WireConfig τ) : WireCall τ → WireTurn τ → WireTurn τ
  | .queueFrame peer frame, t => (WireTcpDriver.queueFrame config peer frame t).2
  | .connectPeer peer isWaiting nowMs, t => (WireTcpDriver.connectPeer config peer isWaiting nowMs t).2
  | .selectPeers peers expired, t => (WireTcpDriver.selectPeers config peers expired t).2
  | .abortPeer peer, t => (WireTcpDriver.abortPeer config peer t).2
  | .forgetPeer peer, t => (WireTcpDriver.forgetPeer config peer t).2
  | .flushQueues nowMs alreadyWritten, t =>
    (WireTcpDriver.flushQueues config nowMs alreadyWritten t).2
  | .acceptConnections, t =>
    (WireTcpDriver.acceptConnections config (config.endpoint.backlog t.driver.tcp) t).2
  | .refreshActive, t => (WireTcpDriver.refreshActive config t).2
  | .input tcp inbound, t => { t with driver := { t.driver with tcp, inbound } }
  | .driveReady nowMs, t => (WireTcpDriver.driveReady config nowMs t).2

/-- A driver as `bind_for_role` makes it. -/
def bind (tcp : τ) : WireTcpDriver τ where
  selectedPeers := ∅
  inbound := ∅
  tcp
  connections := ∅
  active := ∅
  queues := ∅
  inputs := ∅
  continueReady := false

/-- A run of a new driver. -/
def runCalls (config : WireConfig τ) (tcp : τ) (calls : List (WireCall τ)) : WireTurn τ :=
  calls.foldl (fun t call => call.run config t) { driver := bind tcp, trace := [] }

theorem WireCall.inStep (call : WireCall τ) (t : WireTurn τ) (h : InStep config t) :
    InStep config (call.run config t) := by
  cases call with
  | queueFrame peer frame => exact inStep_queueFrame peer frame t h
  | connectPeer peer isWaiting nowMs => exact inStep_connectPeer peer isWaiting nowMs t h
  | selectPeers peers expired => exact inStep_selectPeers peers expired t h
  | abortPeer peer => exact inStep_abortPeer peer t h
  | forgetPeer peer => exact inStep_forgetPeer peer t h
  | flushQueues nowMs alreadyWritten => exact inStep_flushQueues nowMs alreadyWritten t h
  | acceptConnections => exact inStep_acceptConnections _ t h
  | refreshActive => exact inStep_refreshActive t h
  | input tcp inbound => exact h.of_eq (fun _ => rfl) rfl rfl
  | driveReady nowMs => exact inStep_driveReady nowMs t h

theorem inStep_runCalls (config : WireConfig τ) (tcp : τ) (calls : List (WireCall τ)) :
    InStep config (runCalls config tcp calls) := by
  induction calls using List.reverseRecOn with
  | nil =>
    intro peer
    exact .new _
  | append_singleton calls call ih =>
    rw [runCalls, List.foldl_append, ← runCalls]
    exact call.inStep _ ih

theorem flatten_eq_of_run {runs : List (List (List UInt8))} {i : ℕ} {run : List (List UInt8)}
    (h : runs[i]? = some run) :
    runs.flatten = (runs.take i).flatten ++ (run ++ (runs.drop (i + 1)).flatten) := by
  obtain ⟨hi, rfl⟩ := List.getElem?_eq_some_iff.mp h
  rw [← List.flatten_cons, ← List.drop_eq_getElem_cons hi, ← List.flatten_append,
    List.take_append_drop]

/-- In every run of a driver, and for every peer: the connections to it carried runs of the frames
that were queued, one run after the other without a gap, each frame as a whole record, and at most a
part of the next frame, with which the next connection starts again. From each connection its run is
received. A decoder never holds more than one whole record, and a full one has something to take. -/
theorem framing_lossless (config : WireConfig τ) (tcp : τ) (calls : List (WireCall τ))
    (peer : String) :
    let h := History.ofTrace peer (runCalls config tcp calls).trace
    (∃ (runs : List (List (List UInt8))) (rest : List (List UInt8)),
      runs.flatten ++ rest = h.queued ∧ runs.length = h.connections.length ∧
      ∀ (i : ℕ) (connection : Connection), h.connections[i]? = some connection → ∃ run part,
        runs[i]? = some run ∧ connection.bytes = wire run ++ part ∧
        Part ((runs.drop (i + 1)).flatten ++ rest) part ∧
        Delivers config.options.frameCapacity connection.bytes run) ∧
    ∀ pushed frames decoder, Receives config.options.frameCapacity pushed frames decoder →
      decoder.buffer.length ≤ config.options.frameCapacity + 4 ∧
      (decoder.remainingCapacity = 0 → decoder.hasCompleteRecord = true) := by
  intro h
  refine ⟨?_, fun _ _ _ hreceives =>
    ⟨hreceives.length_buffer_le, RecordDecoder.hasCompleteRecord_of_full⟩⟩
  obtain ⟨⟨rest, offset, hsent, -⟩, -, hfits⟩ := inStep_runCalls config tcp calls peer
  obtain ⟨runs, hqueued, hlength, hruns⟩ := hsent.exists_runs
  refine ⟨runs, rest, hqueued, hlength.trans (List.length_map _), fun i connection hi => ?_⟩
  obtain ⟨run, part, hrun, hbytes, hpart⟩ := hruns i connection.bytes (by simp [h, hi])
  refine ⟨run, part, hrun, hbytes, hpart, ?_⟩
  rw [hbytes]
  refine delivers_run (fun frame hframe => hfits frame ?_) hpart
  rw [← hqueued, flatten_eq_of_run hrun]
  simp only [List.mem_append] at hframe ⊢
  tauto

end WireTcpDriver

end NostrPubsub.WireTcp
