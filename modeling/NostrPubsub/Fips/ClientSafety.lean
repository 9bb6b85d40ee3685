import NostrPubsub.Fips.ClientFrameSafety

/-!
# The threads of a client keep its contract

The lemmas for the transport, the store and the application, and what follows for whole runs: the
threads of a client may interleave in every order, and may be cancelled anywhere
(`client_keeps_contract`).
-/

namespace NostrPubsub.Fips.ClientSetup

open Threads

variable {nostr : NostrCrate} {client : ClientSetup} {history : History nostr} {α : Type}

/-! ## Peers that come and go -/

/-- The windows and the pending providers of a peer are dropped. -/
theorem runs_resetPeerEpoch {peer : String} :
    client.Runs (resetPeerEpoch peer : ClientThread nostr Unit) history := by
  unfold resetPeerEpoch
  refine runs_bind (runs_modify_untouched fun _ => ⟨rfl, rfl, rfl, rfl, rfl, rfl, rfl, rfl⟩)
    fun _ _ _ => ?_
  refine runs_bind (runs_modify_untouched fun _ => ⟨rfl, rfl, rfl, rfl, rfl, rfl, rfl, rfl⟩)
    fun _ _ _ => ?_
  refine runs_bind runs_nowMsOfEach fun _ now _ => ?_
  exact runs_modify fun _ s _ hs => hs.pend client.wantOrder (.removePeer peer now) nofun

/-- The peers of the subscriptions change, and their filters stay. -/
theorem Holds.changePeers {s : ClientInner nostr} (hs : client.Holds history s)
    (f : Finset String → Finset String) :
    client.Holds history { s with
      subscriptions := s.subscriptions.filterMapValues fun _ active =>
        some { active with peers := f active.peers } } := by
  refine hs.resubscribe fun key active hactive => ?_
  obtain ⟨old, hold, hsome⟩ := Finmap.lookup_filterMapValues_eq_some.mp hactive
  cases hsome
  exact ⟨old, hold, rfl⟩

/-- With them the subscriptions of the peer and its place in those of the application. -/
theorem runs_forgetPeerState {peer : String} :
    client.Runs (client.forgetPeerState peer : ClientThread nostr Unit) history := by
  unfold forgetPeerState
  refine runs_bind runs_resetPeerEpoch fun _ _ _ => ?_
  refine runs_bind (runs_modify fun _ s _ hs =>
    hs.unask fun _ _ => PubsubPeerSubscriptionStore.lists_of_removePeer) fun _ _ _ => ?_
  exact runs_modify fun _ s _ hs => hs.changePeers fun peers => peers.erase peer

/-- The frames for a peer that connected repeat subscriptions of the application. -/
theorem conforms_replayFramesForPeer {peer : String} :
    client.Conforms (fun later frames => ∀ frame ∈ frames, client.Explained later peer frame)
      (client.replayFramesForPeer peer : ClientThread nostr _) history := by
  refine Thread.Safe.atomic fun later s _ hs => ⟨hs.changePeers fun peers => insert peer peers, ?_⟩
  intro last hlast frame hframe
  -- a frame of the list is the REQ of an open subscription
  obtain ⟨entry, hentry, hsome⟩ := List.mem_filterMap.mp hframe
  have hopened := hs.opened entry.1 entry.2 (mem_activeSubscriptions.mp hentry)
  cases hencode : @encode nostr client (.req entry.1 entry.2.filters) with
  | error error =>
    rw [hencode] at hsome
    cases hsome
  | ok encoded =>
    rw [hencode] at hsome
    cases hsome
    exact .replayed hencode (hopened.mono hlast)

/-- The driver may get a frame that is explained. -/
theorem runs_queueFrame {peer : String} {frame : Frame}
    (h : client.Explained history peer frame) :
    client.Runs (queueFrame peer frame : ClientThread nostr _) history :=
  Thread.Safe.request (fun _ hlater => h.mono hlater) fun _ _ _ _ _ => trivial

/-- The same, where the result does not matter. -/
theorem runs_pushFrame {peer : String} {frame : Frame} (h : client.Explained history peer frame) :
    client.Runs (pushFrame peer frame : ClientThread nostr Unit) history :=
  runs_bind (runs_queueFrame h) fun _ _ _ => runs_pure

/-- A peer that connected gets the REQ of every open subscription. -/
theorem runs_queueReplayFrames {peer : String} :
    client.Runs (client.queueReplayFrames peer : ClientThread nostr Unit) history := by
  unfold queueReplayFrames
  refine Thread.Safe.bind conforms_replayFramesForPeer fun later frames _ hframes => ?_
  exact runs_each fun frame hframe last hlast => runs_pushFrame ((hframes frame hframe).mono hlast)

/-- A peer in cooldown is forgotten by the driver and by the client. -/
theorem runs_forgetCooledPeer {peer : String} :
    client.Runs (client.forgetCooledPeer peer : ClientThread nostr Unit) history := by
  unfold forgetCooledPeer
  refine runs_bind (runs_modify_untouched fun _ => ⟨rfl, rfl, rfl, rfl, rfl, rfl, rfl, rfl⟩)
    fun _ _ _ => ?_
  exact runs_bind runs_forgetPeerState fun _ _ _ => runs_forgetPeer

/-! ## Requests that are due -/

/-- A retry asks a peer that announced the event. -/
theorem explained_of_mem_retryFrames {retries : List (String × InventoryProvider)}
    (hannounced : ∀ retry ∈ retries, client.Announced history retry.1 retry.2.peerNpub)
    {retry : String × Frame} (h : retry ∈ @retryFrames nostr client retries) :
    client.Explained history retry.1 retry.2 := by
  obtain ⟨due, hdue, hsome⟩ := List.mem_filterMap.mp h
  obtain ⟨eventId, hid, hsome⟩ := Option.bind_eq_some_iff.mp hsome
  obtain ⟨frame, hframe, hsome⟩ := Option.bind_eq_some_iff.mp hsome
  cases hsome
  exact .retried (hannounced due hdue) (Except.toOption_eq_some.mp hid)
    (Except.toOption_eq_some.mp hframe)

/-- The frames of the retries that are due are explained. -/
theorem conforms_retryPendingFrames :
    client.Conforms (fun later retries => ∀ retry ∈ retries, client.Explained later retry.1 retry.2)
      (client.retryPendingFrames : ClientThread nostr _) history := by
  have hdue : ∀ later now, client.Conforms (fun last due => ∀ retry ∈ due.retries,
        client.Announced last retry.1 retry.2.peerNpub)
      (Thread.atomic fun s : ClientInner nostr =>
        let due := s.pendingWants.retryDue client.wantOrder now client.retryAfterMs
        (due.1, { s with pendingWants := due.2 })) later := by
    intro later now
    refine Thread.Safe.atomic fun last s _ hs => ⟨?_, fun last' hlast' retry hretry => ?_⟩
    · exact hs.pend client.wantOrder (.retryDue now client.retryAfterMs) nofun
    · exact (hs.tracked.retries hretry).mono hlast'
  unfold retryPendingFrames
  -- The due requests are taken in one step, and their frames are built from what was taken.
  refine Thread.Safe.bind runs_nowMs fun _ now _ _ => ?_
  refine Thread.Safe.bind (hdue _ now) fun later due _ hretries => ?_
  refine Thread.Safe.bind (runs_each fun _ _ _ _ => runs_recordProviderViolation)
    fun last _ hlast _ => ?_
  refine Thread.Safe.pure fun last' hlast' retry hretry => ?_
  exact explained_of_mem_retryFrames
    (fun due hdue => (hretries due hdue).mono (hlast.trans hlast')) hretry

/-! ## Turns of the transport -/

/-- A peer that opened the connection gets no REQ before it asks. -/
theorem runs_greetPeer {peer : String} :
    client.Runs (client.greetPeer peer : ClientThread nostr Unit) history := by
  have hinbound : client.Runs (isInbound peer : ClientThread nostr Bool) history := by
    show client.Runs (Thread.request (Request.isInbound peer)) history
    exact runs_request fun _ => trivial
  unfold greetPeer
  refine runs_bind hinbound fun _ inbound _ => ?_
  split
  · exact runs_queueReplayFrames
  · exact runs_pure

/-- A new connection is greeted, unless the peer is cooling down. -/
theorem runs_processConnected {disconnected : List String} {peer : String} {cooled : List String} :
    client.Runs (client.processConnected disconnected peer cooled : ClientThread nostr _) history := by
  unfold processConnected
  split
  · exact runs_pure
  · refine runs_bind runs_peerIsInCooldown fun _ cooling _ => ?_
    split
    · refine runs_bind runs_forgetPeerState fun _ _ _ => ?_
      exact runs_bind runs_forgetPeer fun _ _ _ => runs_pure
    · refine runs_bind runs_resetPeerEpoch fun _ _ _ => ?_
      exact runs_bind runs_greetPeer fun _ _ _ => runs_pure

/-- So are all new connections of a report. -/
theorem runs_connectedLoop {disconnected peers cooled : List String} :
    client.Runs (client.connectedLoop disconnected peers cooled : ClientThread nostr _) history := by
  induction peers generalizing history cooled with
  | nil => exact runs_pure
  | cons peer rest ih => exact runs_bind runs_processConnected fun _ _ _ => ih

/-- The answer of an earlier step of the turn is used again. -/
theorem runs_isCooling {cooled : List String} {peer : String} :
    client.Runs (isCooling cooled peer : ClientThread nostr Bool) history := by
  unfold isCooling
  split
  · exact runs_pure
  · exact runs_peerIsInCooldown

/-- A frame of a peer that is neither gone nor cooling down is handled. -/
theorem runs_processFrame {disconnected : List String} {peer : String} {frame : Frame}
    {cooled : List String} (hreceived : ∀ message, @decode nostr client frame = .ok message →
      client.Received history peer message) :
    client.Runs (client.processFrame disconnected peer frame cooled : ClientThread nostr _) history := by
  unfold processFrame
  split
  · exact runs_pure
  · refine runs_bind runs_isCooling fun later cooling hlater => ?_
    split
    · split
      · exact runs_pure
      · refine runs_bind runs_forgetPeerState fun _ _ _ => ?_
        exact runs_bind runs_forgetPeer fun _ _ _ => runs_pure
    · -- only here is a frame read
      exact runs_bind (runs_handleFrame fun message hdecode => (hreceived message hdecode).mono hlater)
        fun _ _ _ => runs_pure

/-- So are all frames of a report. -/
theorem runs_framesLoop {disconnected : List String} {frames : List (String × Frame)}
    {cooled : List String} (hreceived : ∀ entry ∈ frames, ∀ message,
      @decode nostr client entry.2 = .ok message → client.Received history entry.1 message) :
    client.Runs (client.framesLoop disconnected frames cooled : ClientThread nostr Unit) history := by
  induction frames generalizing history cooled with
  | nil => exact runs_pure
  | cons entry rest ih =>
    refine runs_bind (runs_processFrame (hreceived entry List.mem_cons_self))
      fun later _ hlater => ih fun other hother message hdecode => ?_
    exact (hreceived other (List.mem_cons_of_mem _ hother) message hdecode).mono hlater

/-- A report starts the thread, so that its frames are received. -/
theorem runs_processWireReport {report : ClientReport}
    (hstarted : Entry.started (Input.wireReport report) ∈ history) :
    client.Runs (client.processWireReport report : ClientThread nostr Unit) history := by
  unfold processWireReport
  refine runs_bind (runs_each fun _ _ _ _ => runs_forgetPeerState) fun later _ hlater => ?_
  refine runs_bind runs_connectedLoop fun last cooled hlast => ?_
  refine runs_bind (runs_framesLoop fun entry hentry message hdecode => ?_) fun _ _ _ => ?_
  · exact ⟨report, entry.2, (hlater.trans hlast).subset hstarted, hentry, hdecode⟩
  · refine Thread.Safe.bind conforms_retryPendingFrames fun later retries _ hretries => ?_
    exact runs_each fun retry hretry last hlast => runs_pushFrame ((hretries retry hretry).mono hlast)

/-- The frame of a send command was explained when the command was queued. -/
theorem runs_runCommand {command : TransportCommand}
    (h : ∀ peer frame, command = .send peer frame → client.Explained history peer frame) :
    client.Runs (client.runCommand command : ClientThread nostr Unit) history := by
  cases command with
  | send peer frame =>
    refine runs_bind runs_peerIsInCooldown fun later cooling hlater => ?_
    split
    · refine runs_bind (runs_queueFrame ((h peer frame rfl).mono hlater)) fun _ result _ => ?_
      cases result with
      | error error => exact runs_pure
      | ok _ => exact runs_connectPeer
    · exact runs_pure
  | cooldown peer => exact runs_forgetCooledPeer

/-- The next command of the queue. -/
theorem conforms_takeCommand :
    client.Conforms (fun later command => ∀ peer frame,
        command = some (TransportCommand.send peer frame) → client.Explained later peer frame)
      (Thread.atomic fun s : ClientInner nostr =>
        (s.commands.head?, { s with commands := s.commands.tail })) history := by
  refine Thread.Safe.atomic fun later s _ hs => ⟨?_, fun last hlast peer frame hhead => ?_⟩
  · refine { hs with commanded := fun peer frame hmem => ?_ }
    exact hs.commanded peer frame (List.mem_of_mem_tail hmem)
  · exact (hs.commanded peer frame (List.mem_of_mem_head? hhead)).mono hlast

/-- A batch of commands, taken one after the other from the queue. -/
theorem runs_commandLoop {batch : ℕ} :
    client.Runs (client.commandLoop batch : ClientThread nostr Unit) history := by
  induction batch generalizing history with
  | zero => exact runs_pure
  | succ batch ih =>
    rw [commandLoop]
    refine Thread.Safe.bind conforms_takeCommand fun later command _ hcommand => ?_
    cases command with
    | none => exact runs_pure
    | some command =>
      refine runs_bind (runs_runCommand fun peer frame heq => ?_) fun _ _ _ => ih
      exact hcommand peer frame (congrArg some heq)

/-- The end of a ready turn runs a batch of commands and flushes the queues. -/
theorem runs_finishReadyTurn : client.Runs (client.finishReadyTurn : ClientThread nostr Unit) history :=
  runs_bind runs_commandLoop fun _ _ _ => runs_request fun _ => trivial

/-- A service peer that is due is connected to, or forgotten while it is cooling. -/
theorem runs_retryService {peer : String} :
    client.Runs (client.retryService peer : ClientThread nostr Unit) history := by
  unfold retryService
  refine runs_bind runs_peerIsInCooldown fun _ cooling _ => ?_
  split
  · exact runs_forgetCooledPeer
  · exact runs_connectPeer

/-- So are all service peers that are due. -/
theorem runs_retryDueServices :
    client.Runs (client.retryDueServices : ClientThread nostr Unit) history := by
  have hdue : client.Runs (dueServicePeers : ClientThread nostr (List String)) history := by
    show client.Runs (Thread.request Request.dueServicePeers) history
    exact runs_request fun _ => trivial
  exact runs_bind hdue fun _ _ _ => runs_each fun _ _ _ _ => runs_retryService

/-- The links of cooling peers are left out. -/
theorem runs_warmLinks {links : List ConnectedPeerLink} :
    client.Runs (warmLinks links : ClientThread nostr _) history := by
  induction links generalizing history with
  | nil => exact runs_pure
  | cons link rest ih =>
    exact runs_bind runs_peerIsInCooldown fun _ _ _ => runs_bind ih fun _ _ _ => runs_pure

/-- A peer that is newly selected gets the open subscriptions, and one that is dropped is forgotten.
-/
theorem runs_reselectPeer {next : Table PeerLinkEpoch} {peer : String} :
    client.Runs (client.reselectPeer next peer : ClientThread nostr Unit) history := by
  unfold reselectPeer
  split
  · exact runs_queueReplayFrames
  · exact runs_forgetPeerState

/-- A known peer is aborted when its link changed, and forgotten when it is gone. -/
theorem runs_relinkPeer {next : Table PeerLinkEpoch} {peer : String} :
    client.Runs (client.relinkPeer next peer : ClientThread nostr Unit) history := by
  have habort : client.Runs (Thread.request (Request.abortPeer peer) : ClientThread nostr Unit)
      history := runs_request fun _ => trivial
  unfold relinkPeer
  exact runs_ite (fun _ => habort) fun _ => runs_forgetPeerState

/-- A peer that is not cooling is connected to. -/
theorem runs_connectLink {known : Table PeerLinkEpoch} {link : ConnectedPeerLink} :
    client.Runs (connectLink known link : ClientThread nostr Unit) history := by
  have hdiscover : ∀ later,
      client.Runs (discoverService known link : ClientThread nostr Unit) later := by
    intro later
    have hrequest : client.Runs (Thread.request (Request.serviceDiscovered link.npub) :
        ClientThread nostr Unit) later := runs_request fun _ => trivial
    unfold discoverService
    exact runs_ite (fun _ => hrequest) fun _ => runs_pure
  unfold connectLink
  refine runs_bind runs_peerIsInCooldown fun _ cooling _ => ?_
  split
  · exact runs_bind (hdiscover _) fun _ _ _ => runs_connectPeer
  · exact runs_pure

/-- The peers of the driver follow the links of the node. -/
theorem runs_syncTransportPeers :
    client.Runs (client.syncTransportPeers : ClientThread nostr Unit) history := by
  have hlinks : client.Runs (connectedPeerLinks : ClientThread nostr _) history := by
    show client.Runs (Thread.request Request.connectedPeerLinks) history
    exact runs_request fun _ => trivial
  have hselect : ∀ later peers,
      client.Runs (selectPeers peers : ClientThread nostr (List String)) later := by
    intro later peers
    show client.Runs (Thread.request (Request.selectPeers peers)) later
    exact runs_request fun _ => trivial
  unfold syncTransportPeers
  refine runs_bind hlinks fun _ result _ => ?_
  cases result with
  | error error => exact runs_pure
  | ok links =>
    -- Each part touches the links of the transport alone, whatever the policy selects.
    refine runs_bind runs_warmLinks fun _ warm _ => ?_
    refine runs_bind runs_read fun _ known _ => ?_
    refine runs_bind (hselect _ _) fun _ selected _ => ?_
    refine runs_bind (runs_each fun _ _ _ _ => runs_reselectPeer) fun _ _ _ => ?_
    refine runs_bind (runs_each fun _ _ _ _ => runs_relinkPeer) fun _ _ _ => ?_
    refine runs_bind (runs_each fun _ _ _ _ => runs_connectLink) fun _ _ _ => ?_
    exact runs_modify_untouched fun _ => ⟨rfl, rfl, rfl, rfl, rfl, rfl, rfl, rfl⟩

/-! ## History from the store -/

/-- Asking whether the client still runs changes nothing. -/
theorem runs_admitCall : client.Runs (admitCall : ClientThread nostr _) history := runs_read

/-- A frame from the store answers the query. -/
theorem conforms_serveFrame {peer : String} {query : ReplayQuery} {event : VerifiedEvent nostr}
    (hpassed : client.Passed history event) (horiginates : client.Originates history event)
    (hwanted : ∀ eventId, query = .event eventId → client.Received history peer
      (.want eventId : FipsPubsubWireMessage nostr)) :
    client.Conforms (fun later result => ∀ frame, result = .ok (some frame) →
        ∃ said, @encode nostr client said = .ok frame ∧ client.Justified later peer said)
      (client.serveFrame peer query event) history := by
  have hread : client.Conforms (fun later found => ∀ subscription ∈ found,
        client.Asks later peer subscription.subscriptionId event)
      (Thread.read fun s : ClientInner nostr =>
        matchingSubscriptions s.peerSubscriptions peer event) history :=
    Thread.Safe.read fun _ s _ hs _ hlast subscription hfound =>
      (hs.asks_matchingSubscriptions hfound).mono hlast
  have hbudget : ∀ later, history <+: later → client.Budget later event client.options.maxHops :=
    fun later hlater => .inl ⟨rfl, horiginates.mono hlater⟩
  unfold serveFrame
  refine Thread.Safe.bind hread fun later found hlater hfound => ?_
  cases query with
  | subscription id filters excluded limit =>
    dsimp only
    split
    · next hany =>
      -- the peer still asks under the id that the query came with
      obtain ⟨subscription, hmem, hid⟩ := List.any_eq_true.mp hany
      have hasks := hfound subscription hmem
      rw [of_decide_eq_true hid] at hasks
      refine Thread.Safe.bind (conforms_inventoryFrame (hpassed.mono hlater)
        (.inr (hbudget later hlater))) fun last result hlast hresult => ?_
      refine Thread.Safe.pure fun last' hlast' frame hsome => ?_
      cases result with
      | error error => cases hsome
      | ok encoded =>
        cases hsome
        obtain ⟨payloadBytes, hbytes, hencode⟩ := hresult _ rfl
        refine ⟨_, hencode, .inv (fun other hother => ?_)
          (hpassed.mono ((hlater.trans hlast).trans hlast')) hbytes
          (hbudget _ ((hlater.trans hlast).trans hlast'))⟩
        rw [List.mem_singleton.mp hother]
        exact hasks.mono (hlast.trans hlast')
    · refine Thread.Safe.pure fun _ _ _ hnone => ?_
      cases hnone
  | event eventId =>
    cases found with
    | nil =>
      refine Thread.Safe.pure fun _ _ _ hnone => ?_
      cases hnone
    | cons subscription rest =>
      dsimp only
      split
      · refine Thread.Safe.pure fun _ _ _ hnone => ?_
        cases hnone
      · next hid =>
        refine Thread.Safe.pure fun last hlast frame hsome => ?_
        cases hencode : @encode nostr client (.event (some subscription.subscriptionId) event) with
        | error error =>
          rw [hencode] at hsome
          cases hsome
        | ok encoded =>
          rw [hencode] at hsome
          cases hsome
          -- the event has the id that the WANT named
          have hwant := hwanted eventId rfl
          rw [← not_not.mp hid] at hwant
          exact ⟨_, hencode, .answer (hwant.mono (hlater.trans hlast))
            ((hfound subscription List.mem_cons_self).mono hlast) (hpassed.mono (hlater.trans hlast))⟩

/-- The loop of a replay announces or sends what the store returned, as far as the peer asked for
it. -/
theorem runs_serveLoop {request : ReplayRequest} {events : List (VerifiedEvent nostr × EventSource)}
    (horiginates : ∀ found ∈ events, client.Originates history found.1)
    (hwanted : ∀ eventId, request.query = .event eventId → client.Received history request.peer
      (.want eventId : FipsPubsubWireMessage nostr)) :
    client.Runs (client.serveLoop request events) history := by
  induction events generalizing history with
  | nil => exact runs_pure
  | cons found rest ih =>
    have hrest : ∀ later, history <+: later → client.Runs (client.serveLoop request rest) later :=
      fun later hlater => ih
        (fun other hother => (horiginates other (List.mem_cons_of_mem _ hother)).mono hlater)
        fun eventId hquery => (hwanted eventId hquery).mono hlater
    have horiginates' := horiginates found List.mem_cons_self
    obtain ⟨event, source⟩ := found
    rw [serveLoop]
    refine Thread.Safe.bind conforms_eventIsAdmitted fun later admitted hlater hadmitted => ?_
    split
    · exact hrest later hlater
    · -- The event came out of the store and the policy admitted it with its source.
      next hnot =>
      have hpassed : client.Passed later event :=
        ⟨.inl (horiginates'.mono hlater), source, hadmitted (not_not.mp hnot)⟩
      refine runs_bind runs_admitCall fun last result hlast => ?_
      cases result with
      | error error => exact runs_pure
      | ok _ =>
        refine runs_bind runs_read fun last' current hlast' => ?_
        have hlater' := (hlater.trans hlast).trans hlast'
        split
        · exact runs_pure
        · refine Thread.Safe.bind (conforms_serveFrame (hpassed.mono (hlast.trans hlast'))
            (horiginates'.mono hlater') fun eventId hquery => (hwanted eventId hquery).mono hlater')
            fun served result hserved hresult => ?_
          have hserved' := hlater'.trans hserved
          split
          · next frame =>
            obtain ⟨said, hencode, hjustified⟩ := hresult frame rfl
            exact runs_bind (runs_sendFrame hencode hjustified) fun sent _ hsent =>
              hrest sent (hserved'.trans hsent)
          · exact hrest served hserved'

/-- What is served is what the store answered. -/
theorem mem_events_of_mem_boundedEvents {report : QueryReport nostr} {filters : List Filter}
    {query : ReplayQuery} {limit : ℕ} {found : VerifiedEvent nostr × EventSource}
    (h : found ∈ boundedEvents report filters query limit) :
    found.1 ∈ report.events.map QueryEvent.event := by
  -- the source sorts, drops repetitions and cuts off, and adds nothing
  have hkept := (List.destutter_sublist _ _).subset (List.mem_of_mem_take h)
  rw [mem_sortByRank, List.mem_map] at hkept
  obtain ⟨answered, hanswered, rfl⟩ := hkept
  exact List.mem_map_of_mem (List.mem_of_mem_take (List.mem_of_mem_filter hanswered))

/-- A replay asks the store, whose answer originates what is served. -/
theorem runs_serve {request : ReplayRequest}
    (hwanted : ∀ eventId, request.query = .event eventId → client.Received history request.peer
      (.want eventId : FipsPubsubWireMessage nostr)) :
    client.Runs (client.serve request : ClientThread nostr Unit) history := by
  have hquery : client.Conforms (fun later report =>
        Entry.answered (Request.query request.source request.query.filters request.query.limit)
          report ∈ later)
      (queryStore request.source request.query.filters request.query.limit : ClientThread nostr _)
      history :=
    Thread.Safe.request (fun _ _ => trivial) fun _ _ _ _ hlast =>
      hlast.subset (List.mem_append_right _ List.mem_cons_self)
  -- What the store answers is on record, so that every event of the loop comes from it.
  unfold serve
  dsimp only
  split
  · exact runs_pure
  · refine Thread.Safe.bind hquery fun later report hlater hanswered => ?_
    refine runs_serveLoop (fun found hfound => ?_) fun eventId heq => (hwanted eventId heq).mono hlater
    exact .stored hanswered (mem_events_of_mem_boundedEvents hfound)

/-- The worker serves the replay that was queued first. -/
theorem runs_worker : client.Runs (client.worker : ClientThread nostr Unit) history := by
  have htake : client.Conforms (fun later request => ∀ taken, request = some taken →
        ∀ eventId, taken.query = .event eventId → client.Received later taken.peer
          (.want eventId : FipsPubsubWireMessage nostr))
      (Thread.atomic fun s : ClientInner nostr =>
        (s.replays.head?, { s with replays := s.replays.tail })) history := by
    refine Thread.Safe.atomic fun later s _ hs => ⟨?_, fun last hlast taken htaken eventId heq => ?_⟩
    · refine { hs with replaying := fun request hrequest => ?_ }
      exact hs.replaying request (List.mem_of_mem_tail hrequest)
    · exact (hs.replaying taken (List.mem_of_mem_head? htaken) eventId heq).mono hlast
  unfold worker
  refine Thread.Safe.bind htake fun later request _ hrequest => ?_
  cases request with
  | none => exact runs_pure
  | some request => exact runs_serve (hrequest request rfl)

/-! ## Calls of the application -/

/-- Asking the node for its links is free. -/
theorem runs_connectedPeerLinks : client.Runs (connectedPeerLinks : ClientThread nostr _) history := by
  show client.Runs (Thread.request Request.connectedPeerLinks) history
  exact runs_request fun _ => trivial

/-- A new subscription has a new delivery, in which nothing waits. -/
theorem runs_insertSubscription {key : String} {filters : List WireFilter} {fresh : Bool}
    {peers : List String} (hopened : client.Opened history filters) :
    client.Runs (client.insertSubscription key filters fresh peers : ClientThread nostr _) history := by
  refine runs_atomic fun later s hlater hs => ?_
  split
  · exact hs
  · refine { hs with
      opened := fun other active hactive => ?_
      waiting := fun other delivery hdelivery => ?_ }
    · rcases Finmap.lookup_insert_eq_some.mp hactive with ⟨rfl, rfl⟩ | ⟨-, hold⟩
      · exact hopened.mono hlater
      · exact hs.opened other active hold
    · -- the fresh queue is empty, and the filters are those that the caller opened
      rcases Finmap.lookup_insert_eq_some.mp hdelivery with ⟨rfl, rfl⟩ | ⟨hne, hold⟩
      · refine ⟨filters, hopened.mono hlater, fun active hactive => ?_, fun found hfound => ?_⟩
        · rw [Finmap.lookup_insert] at hactive
          cases hactive
          rfl
        · cases hfound
      · -- the deliveries of the other subscriptions stay
        obtain ⟨asked, hasked, hsame, hfound⟩ := hs.waiting other delivery hold
        refine ⟨asked, hasked, fun active hactive => hsame active ?_, hfound⟩
        rwa [Finmap.lookup_insert_of_ne _ hne] at hactive

/-- The cache is replayed to a new subscription as far as it matches the filters. -/
theorem Holds.replayLocalLoop {s : ClientInner nostr} (hs : client.Holds history s) {key : String}
    {active : ActiveSubscription} (hactive : s.subscriptions.lookup key = some active)
    {list : List (CachedEvent nostr)}
    (hlist : ∀ cached ∈ list, client.Sourced history cached.event cached.source) :
    client.Holds history (client.replayLocalLoop key active.filters list s) := by
  induction list generalizing s with
  | nil => exact hs
  | cons cached rest ih =>
    have hrest : ∀ other ∈ rest, client.Sourced history other.event other.source :=
      fun other hother => hlist other (List.mem_cons_of_mem _ hother)
    rw [ClientSetup.replayLocalLoop]
    split
    · next hwants =>
      obtain ⟨hholds, hsame⟩ := hs.deliverLocal hactive hwants (hlist cached List.mem_cons_self)
      exact ih hholds (by rwa [hsame]) hrest
    · exact ih hs hactive hrest

/-- The replay of the cache, as one step. -/
theorem runs_replayLocalEvents {key : String} :
    client.Runs (client.replayLocalEvents key : ClientThread nostr Unit) history := by
  have hread : client.Conforms (fun later list => ∀ cached ∈ list,
        client.Sourced later cached.event cached.source)
      (Thread.read fun s : ClientInner nostr => s.recentEvents.entries) history :=
    Thread.Safe.read fun _ s _ hs _ hlast cached hcached => (hs.cached cached hcached).mono hlast
  unfold replayLocalEvents
  refine Thread.Safe.bind hread fun later recent _ hrecent => ?_
  refine runs_bind (runs_atomic fun last s hlast hs => ?_) fun _ lagged _ => ?_
  · dsimp only
    split
    · exact hs
    · next active hactive =>
      exact hs.replayLocalLoop hactive fun cached hcached => (hrecent cached hcached).mono hlast
  · split
    · exact runs_closeSubscription
    · exact runs_pure

/-- A REQ to each of the selected peers says the filters that were opened. -/
theorem runs_requestLoop {key : String} {frame : Frame} {peers : List String} {sent : ℕ}
    {lastError : Option PubsubError} {filters : List WireFilter}
    (hencode : @encode nostr client (.req key filters) = .ok frame)
    (hopened : client.Opened history filters) :
    client.Runs (client.requestLoop key frame peers sent lastError : ClientThread nostr _) history := by
  induction peers generalizing history sent lastError with
  | nil => exact runs_pure
  | cons peer rest ih =>
    rw [requestLoop]
    refine runs_bind (runs_sendFrame hencode (.req hopened)) fun sent result hsent => ?_
    cases result with
    | ok _ => exact ih (hopened.mono hsent)
    | error error =>
      -- the peer that could not be asked is taken off the subscription
      refine runs_bind (runs_modify fun later s _ hs => ?_)
        fun last _ hlast => ih (hopened.mono (hsent.trans hlast))
      split
      · next active hactive =>
        refine hs.resubscribe fun other changed hchanged => ?_
        rcases Finmap.lookup_insert_eq_some.mp hchanged with ⟨rfl, rfl⟩ | ⟨-, hold⟩
        · exact ⟨active, hactive, rfl⟩
        · exact ⟨changed, hold, rfl⟩
      · exact hs

/-- A subscription is opened under a new key, with the filters of the call. -/
theorem runs_openSubscription {filters : List WireFilter} {replayLocal : Bool} {peers : List String}
    (hopened : client.Opened history filters) :
    client.Runs (client.openSubscription filters replayLocal peers : ClientThread nostr _) history := by
  have hreplay : ∀ later key, client.Runs (client.replayUnlessFresh key replayLocal :
      ClientThread nostr Unit) later := by
    intro later key
    unfold replayUnlessFresh
    split
    · exact runs_replayLocalEvents
    · exact runs_pure
  unfold openSubscription
  refine runs_bind (runs_untouched fun _ => ⟨rfl, rfl, rfl, rfl, rfl, rfl, rfl, rfl⟩)
    fun later sequence hlater => ?_
  dsimp only
  split
  · exact runs_pure
  · next frame hencode =>
    refine runs_bind (runs_insertSubscription (hopened.mono hlater)) fun last result hlast => ?_
    cases result with
    | error error => exact runs_pure
    | ok _ =>
      refine runs_bind (hreplay _ _) fun last' _ hlast' => ?_
      have hopened' := hopened.mono ((hlater.trans hlast).trans hlast')
      refine runs_bind (runs_requestLoop hencode hopened') fun _ sent _ => ?_
      obtain ⟨sent, lastError⟩ := sent
      dsimp only
      split
      · exact runs_bind runs_closeSubscription fun _ _ _ => runs_pure
      · exact runs_pure

/-- The call of `subscribe` starts the thread, which opens its filters. -/
theorem runs_subscribe {filters : List WireFilter} {replayLocal : Bool}
    (hstarted : Entry.started (Input.subscribe filters replayLocal) ∈ history) :
    client.Runs (client.subscribe filters replayLocal : ClientThread nostr _) history := by
  unfold subscribe
  refine runs_bind runs_admitCall fun later result hlater => ?_
  cases result with
  | error error => exact runs_pure
  | ok _ =>
    dsimp only
    split
    · exact runs_pure
    · next hcheck =>
      have hopened : client.Opened later (client.limitFilters (subscribedFilters filters)) :=
        ⟨filters, replayLocal, hlater.subset hstarted, hcheck, rfl⟩
      refine runs_bind runs_connectedPeerLinks fun last result hlast => ?_
      cases result with
      | error error => exact runs_pure
      | ok links =>
        refine runs_bind runs_admitCall fun last' result hlast' => ?_
        cases result with
        | error error => exact runs_pure
        | ok _ => exact runs_openSubscription (hopened.mono (hlast.trans hlast'))

/-- A critical section on a delivery after which nothing new waits. -/
theorem conforms_onDelivery {key : String} {otherwise : α}
    {f : LocalDelivery nostr → α × LocalDelivery nostr} {post : History nostr → α → Prop}
    (hwaiting : ∀ delivery, ∀ found ∈ (f delivery).2.waiting, found ∈ delivery.waiting)
    (hpost : ∀ later s, client.Holds later s → ∀ delivery, s.deliveries.lookup key = some delivery →
      ∀ last, later <+: last → post last (f delivery).1)
    (hnone : ∀ last, post last otherwise) :
    client.Conforms post (onDelivery key otherwise f) history := by
  refine Thread.Safe.atomic fun later s _ hs => ?_
  dsimp only
  split
  · next delivery hlookup =>
    refine ⟨hs.deliver hlookup fun found hmem => .inl (hwaiting delivery found hmem), ?_⟩
    exact hpost later s hs delivery hlookup
  · exact ⟨hs, fun last _ => hnone last⟩

/-- What is handed over waited for the subscription, so that it was admitted and matches filters. -/
theorem runs_receive {key : String} :
    client.Runs (receive key : ClientThread nostr Unit) history := by
  have hrefill : ∀ later, client.Runs (onDelivery key () fun delivery : LocalDelivery nostr =>
      ((), delivery.refill)) later := fun later =>
    conforms_onDelivery (fun _ _ => LocalDelivery.mem_waiting_refill) (fun _ _ _ _ _ _ _ => trivial)
      fun _ => trivial
  have htake : ∀ later, client.Conforms (fun last event => ∀ found, event = some found →
        client.May last (Request.handOver key found))
      (onDelivery key none LocalDelivery.take : ClientThread nostr _) later := by
    intro later
    refine conforms_onDelivery (fun _ _ => LocalDelivery.mem_waiting_take) ?_ fun _ _ hnone => ?_
    · intro last s hs delivery hlookup last' hlast' found hfound
      obtain ⟨filters, hopened, -, hwaiting⟩ := hs.waiting key delivery hlookup
      obtain ⟨hsourced, hwants⟩ := hwaiting found (LocalDelivery.mem_waiting_of_take hfound)
      exact ⟨hsourced.mono hlast', filters, hopened.mono hlast', hwants⟩
    · cases hnone
  unfold receive
  -- what is taken was waiting, also when a refill came first
  refine runs_bind (hrefill _) fun later _ _ => ?_
  refine Thread.Safe.bind (htake _) fun last event _ hevent => ?_
  refine runs_bind (hrefill _) fun last' _ hlast' => ?_
  cases event with
  | none => exact runs_pure
  | some event =>
    refine Thread.Safe.request (fun last'' hlast'' => ?_) fun _ _ _ _ _ => trivial
    exact (hevent event rfl).mono (hlast'.trans hlast'')

/-- An event that the application publishes is delivered, cached and announced. -/
theorem runs_publishAdmitted {event : VerifiedEvent nostr} {source : EventSource} {priority : ℤ}
    {reason : Option String} (hstarted : Entry.started (Input.publish event source) ∈ history)
    (hadmitted : client.Admitted history event source) :
    client.Runs (client.publishAdmitted event source priority reason) history := by
  -- What this client published itself goes out with its own hop limit.
  have hbudget : ∀ later, history <+: later →
      client.options.maxHops = 0 ∨ client.Budget later event client.options.maxHops :=
    fun later hlater => .inr (.inl ⟨rfl, .published (hlater.subset hstarted)⟩)
  have hknown : ∀ later, history <+: later → client.Known later event :=
    fun later hlater => .inl (.published (hlater.subset hstarted))
  unfold publishAdmitted
  refine Thread.Safe.bind conforms_peerDeliveryTargets fun later result hlater hresult => ?_
  cases result with
  | error error => exact runs_pure
  | ok subscribed =>
    refine runs_bind runs_admitCall fun last result hlast => ?_
    cases result with
    | error error => exact runs_pure
    | ok _ =>
      have hlater' := hlater.trans hlast
      -- the cache now has the event, and whether it is new decides on the announcements
      refine runs_bind (runs_atomic fun last' s hlast' hs => hs.cache fun cached hcached => ?_)
        fun last' isNew hlast' => ?_
      · rcases RecentEvents.mem_entries_insertForPublish hcached with hold | rfl
        · exact .inl hold
        · exact .inr ⟨⟨hknown _ (hlater'.trans hlast'), .inl (hadmitted.mono (hlater'.trans hlast'))⟩,
            hbudget _ (hlater'.trans hlast')⟩
      · split
        · exact runs_pure
        · split
          · exact runs_pure
          · refine runs_bind (runs_sendInventories
              ⟨hknown _ (hlater'.trans hlast'), source, hadmitted.mono (hlater'.trans hlast')⟩
              (hbudget _ (hlater'.trans hlast')) fun target htarget id hid => ?_)
              fun _ _ _ => runs_pure
            exact (hresult subscribed rfl target htarget id hid).mono (hlast.trans hlast')

/-- It is checked before. -/
theorem runs_publish {event : VerifiedEvent nostr} {source : EventSource}
    (hstarted : Entry.started (Input.publish event source) ∈ history) :
    client.Runs (client.publish event source) history := by
  unfold publish
  split
  · exact runs_pure
  · refine runs_bind runs_admitCall fun later result hlater => ?_
    cases result with
    | error error => exact runs_pure
    | ok _ =>
      refine Thread.Safe.bind conforms_eventDecision fun later' decision hlater' hdecision => ?_
      cases decision with
      | error error => exact runs_pure
      | ok decision =>
        refine runs_bind runs_admitCall fun last result hlast => ?_
        cases result with
        | error error => exact runs_pure
        | ok _ =>
          have hstarted' := ((hlater.trans hlater').trans hlast).subset hstarted
          -- an accepted decision is one that admits the event
          cases decision with
          | drop reason => exact runs_pure
          | allow priority => exact runs_publishAdmitted hstarted' ((hdecision rfl).mono hlast)
          | throttle priority reason =>
            exact runs_publishAdmitted hstarted' ((hdecision rfl).mono hlast)

/-- The EVENT goes to the providers of the publication. -/
theorem runs_publishLoop {frame : Frame} {peers : List String} {event : VerifiedEvent nostr}
    (hencode : @encode nostr client (.event none event) = .ok frame)
    (hpublished : ∀ peer ∈ peers, PublishedTo history event.event.id peer) :
    client.Runs (client.publishLoop frame peers : ClientThread nostr _) history := by
  induction peers generalizing history with
  | nil => exact runs_pure
  | cons peer rest ih =>
    rw [publishLoop]
    refine runs_bind (runs_sendFrame hencode (.publication (hpublished peer List.mem_cons_self)))
      fun later result hlater => ?_
    cases result with
    | error error => exact runs_pure
    | ok _ =>
      exact ih fun other hother => (hpublished other (List.mem_cons_of_mem _ hother)).mono hlater

/-- An anonymous publication is pending for its providers before the first EVENT leaves. -/
theorem runs_publishInner {event : VerifiedEvent nostr} {timeoutMs : ℕ}
    (hstarted : Entry.started (Input.publishAnonymous event timeoutMs) ∈ history) :
    client.Runs (client.publishInner event timeoutMs) history := by
  have hlinks : client.Conforms (fun later result => ∀ links, result = Except.ok links →
        Entry.answered Request.connectedPeerLinks (Except.ok links) ∈ later)
      (connectedPeerLinks : ClientThread nostr _) history := by
    refine Thread.Safe.request (fun _ _ => trivial) fun later answer last _ hlast links hanswer => ?_
    subst hanswer
    exact hlast.subset (List.mem_append_right _ List.mem_cons_self)
  unfold publishInner
  split
  · exact runs_pure
  · next hvalid =>
    split
    · exact runs_pure
    · refine Thread.Safe.bind hlinks fun later result hlater hresult => ?_
      cases result with
      | error error => exact runs_pure
      | ok links =>
        dsimp only
        split
        · exact runs_pure
        · have hpublished : ∀ last, later <+: last → ∀ peer ∈ links.map ConnectedPeerLink.npub,
              PublishedTo last event.event.id peer := fun last hlast peer hpeer =>
            ⟨event, timeoutMs, links, (hlater.trans hlast).subset hstarted, rfl, hvalid,
              hlast.subset (hresult links rfl), hpeer⟩
          -- the publication is recorded before its first frame leaves, so `validateOutbound` finds it
          refine runs_bind (runs_modify fun last s hlast hs => ?_) fun last _ hlast => ?_
          · refine { hs with published := fun other publication hlookup peer hpeer => ?_ }
            rcases Finmap.lookup_insert_eq_some.mp hlookup with ⟨rfl, rfl⟩ | ⟨-, hold⟩
            · exact hpublished last hlast peer (List.mem_toFinset.mp hpeer)
            · exact hs.published other publication hold peer hpeer
          · split
            · exact runs_pure
            · next frame hencode => exact runs_publishLoop hencode (hpublished last hlast)

/-- The store of the replays is set. -/
theorem runs_setReplaySource {source : Option ℕ} :
    client.Runs (setReplaySource source : ClientThread nostr _) history := by
  have hadmit : client.Runs (admitSource source : ClientThread nostr _) history := by
    unfold admitSource
    cases source with
    | none => exact runs_pure
    | some source => exact runs_admitCall
  unfold setReplaySource
  refine runs_bind hadmit fun _ result _ => ?_
  cases result with
  | error error => exact runs_pure
  | ok _ =>
    exact runs_bind (runs_modify_untouched fun _ => ⟨rfl, rfl, rfl, rfl, rfl, rfl, rfl, rfl⟩)
      fun _ _ _ => runs_pure

/-- Everything is closed, and nothing pends any more. -/
theorem runs_closeAll : client.Runs (client.closeAll : ClientThread nostr Unit) history := by
  unfold closeAll
  refine runs_bind (runs_modify_untouched fun _ => ⟨rfl, rfl, rfl, rfl, rfl, rfl, rfl, rfl⟩)
    fun _ _ _ => ?_
  refine runs_bind (runs_modify_untouched fun _ => ⟨rfl, rfl, rfl, rfl, rfl, rfl, rfl, rfl⟩)
    fun _ _ _ => ?_
  refine runs_bind (runs_atomic fun later s _ hs => ?_) fun _ active _ => ?_
  · refine hs.resubscribe fun key active hactive => ?_
    rw [Finmap.lookup_empty] at hactive
    cases hactive
  · refine runs_bind (runs_each fun _ _ _ _ => ?_) fun _ _ _ => ?_
    · exact runs_bind runs_closeDelivery fun _ _ _ => runs_sendClose
    · refine runs_bind (runs_modify fun later s _ hs => ?_) fun _ _ _ => ?_
      · refine { hs with published := fun eventId publication hlookup => ?_ }
        rw [Finmap.lookup_empty] at hlookup
        cases hlookup
      · exact runs_modify fun _ s _ hs => hs.pend client.wantOrder .clear nofun

/-! ## Runs -/

/-- Every thread keeps the contract after the input that starts it. -/
theorem runs_program (history : History nostr) (input : Input nostr) :
    client.Runs (client.program input) (history ++ [.started input]) := by
  have hstarted : Entry.started input ∈ history ++ [.started input] :=
    List.mem_append_right _ List.mem_cons_self
  cases input with
  | subscribe filters replayLocal => exact runs_bind (runs_subscribe hstarted) fun _ _ _ => runs_pure
  | close key => exact runs_closeSubscription
  | receive key => exact runs_receive
  | dropReceiver key =>
    refine runs_modify fun later s _ hs => ?_
    dsimp only
    split
    · next delivery hlookup => exact hs.deliver hlookup fun found hmem => .inl hmem
    · exact hs
  | publish event source => exact runs_bind (runs_publish hstarted) fun _ _ _ => runs_pure
  | publishAnonymous event timeoutMs =>
    exact runs_bind (runs_publishInner hstarted) fun _ _ _ => runs_pure
  | setReplaySource source => exact runs_bind runs_setReplaySource fun _ _ _ => runs_pure
  | shutdown => exact runs_closeAll
  | wireReport report => exact runs_processWireReport hstarted
  | readyTurn => exact runs_finishReadyTurn
  | syncPeers => exact runs_syncTransportPeers
  | retryServices => exact runs_retryDueServices
  | serveNext => exact runs_worker
  | stopTransport =>
    refine runs_modify fun later s _ hs => { hs with commanded := fun peer frame hmem => ?_ }
    cases hmem

/-- In every order of its threads' steps, a client keeps its contract. -/
theorem client_keeps_contract (client : ClientSetup)
    (moves : List (World.Move (Input nostr) (@Request.Answer nostr))) :
    (client.run nostr moves).Keeps client.contract :=
  World.safe_run (holds_start client) (fun history input => runs_program history input) moves

/-! ## What comes of it -/

/-- Whatever the application gets came in and was let pass by the policy before, and matches the filters
of a subscription that was opened before. -/
def HandsOverAdmitted (client : ClientSetup) (history : History nostr) : Prop :=
  ∀ (before : History nostr) (key : String) (found : QueryEvent nostr) (answer : Unit),
    before ++ [.answered (Request.handOver key found) answer] <+: history →
    client.Sourced before found.event found.source ∧
      ∃ filters, client.Opened before filters ∧ client.wants filters found.event = true

/-- No interleaving of a client's threads gets an event past its policy or its subscriptions to the
application. -/
theorem hands_over_admitted (client : ClientSetup)
    (moves : List (World.Move (Input nostr) (@Request.Answer nostr))) :
    client.HandsOverAdmitted (client.run nostr moves).history :=
  fun before key found answer hbefore =>
    (client_keeps_contract client moves).asked before (Request.handOver key found) answer hbefore

/-- Every frame that the driver gets says what its peer asked for and the role permits, or closes or
repeats a request of the client. -/
def QueuesExplained (client : ClientSetup) (history : History nostr) : Prop :=
  ∀ (before : History nostr) (peer : String) (frame : Frame) (answer : Except PubsubError Unit),
    before ++ [.answered (Request.queueFrame peer frame) answer] <+: history →
    client.Explained before peer frame

/-- No interleaving of a client's threads gets a frame to the driver that its peer did not ask for, or
that the role does not permit, apart from those that close or repeat what the client asked for. -/
theorem queues_explained (client : ClientSetup)
    (moves : List (World.Move (Input nostr) (@Request.Answer nostr))) :
    client.QueuesExplained (client.run nostr moves).history :=
  fun before peer frame answer hbefore =>
    (client_keeps_contract client moves).asked before (Request.queueFrame peer frame) answer hbefore

/-- The delivery of an open subscription was made for its filters. -/
theorem Holds.waits {s : ClientInner nostr} (hs : client.Holds history s) {key : String}
    {active : ActiveSubscription} {delivery : LocalDelivery nostr}
    (hactive : s.subscriptions.lookup key = some active)
    (hdelivery : s.deliveries.lookup key = some delivery) :
    client.Opened history active.filters ∧ ∀ found ∈ delivery.waiting,
      client.Sourced history found.event found.source ∧
        client.wants active.filters found.event = true := by
  -- the delivery was made for some filters, and an open subscription still has the same
  obtain ⟨filters, hopened, hsame, hwaiting⟩ := hs.waiting key delivery hdelivery
  rw [hsame active hactive]
  exact ⟨hopened, hwaiting⟩

/-- What waits under an open subscription matches its filters, and was let pass by the policy. -/
def WaitsForSubscriber (client : ClientSetup) (history : History nostr) (s : ClientInner nostr) :
    Prop :=
  ∀ key active delivery, s.subscriptions.lookup key = some active →
    s.deliveries.lookup key = some delivery →
    client.Opened history active.filters ∧ ∀ found ∈ delivery.waiting,
      client.Sourced history found.event found.source ∧
        client.wants active.filters found.event = true

/-- In every reachable state, what waits for the application is what it subscribed to under that
very key. -/
theorem waits_for_subscriber (client : ClientSetup)
    (moves : List (World.Move (Input nostr) (@Request.Answer nostr))) :
    client.WaitsForSubscriber (client.run nostr moves).history (client.run nostr moves).state :=
  fun _ _ _ hactive hdelivery => (client_keeps_contract client moves).holds.waits hactive hdelivery

/-- In every reachable state, the event that the application would take from an open subscription
matches the filters of that subscription. -/
theorem takes_own (client : ClientSetup)
    (moves : List (World.Move (Input nostr) (@Request.Answer nostr))) {key : String}
    {active : ActiveSubscription} {delivery : LocalDelivery nostr} {found : QueryEvent nostr}
    (hactive : (client.run nostr moves).state.subscriptions.lookup key = some active)
    (hdelivery : (client.run nostr moves).state.deliveries.lookup key = some delivery)
    (htaken : delivery.take.1 = some found) :
    client.Opened (client.run nostr moves).history active.filters ∧
      client.wants active.filters found.event = true := by
  obtain ⟨hopened, hwaiting⟩ :=
    (client_keeps_contract client moves).holds.waits hactive hdelivery
  exact ⟨hopened, (hwaiting found (LocalDelivery.mem_waiting_of_take htaken)).2⟩

end NostrPubsub.Fips.ClientSetup

namespace NostrPubsub.Fips

open Threads

/-! ## A client between two others

Client `b` asks `a` for events, and `c` asks `b`. Every client calls its first subscription `fips-1`. -/

mutual

/-- `Value::to_string`, where no text needs escapes and no number has a fraction. -/
def Value.render : Value → String
  | .null => "null"
  | .bool b => toString b
  | .number (.posInt n) => toString n
  | .number (.negInt n) => toString n
  | .number (.float value) => toString value
  | .string text => "\"" ++ text ++ "\""
  | .array values => "[" ++ ",".intercalate (renderValues values) ++ "]"
  | .object fields => "\x7b" ++ ",".intercalate (renderFields fields) ++ "\x7d"

def Value.renderValues : List Value → List String
  | [] => []
  | value :: values => value.render :: renderValues values

def Value.renderFields : List (String × Value) → List String
  | [] => []
  | (name, value) :: fields => ("\"" ++ name ++ "\":" ++ value.render) :: renderFields fields

end

/-- The JSON form of a filter that has nothing but a limit. -/
def limitValue (filter : WireFilter) : Value :=
  if filter = { limit := filter.limit } then
    .object (filter.limit.toList.map fun limit => ("limit", .nat limit))
  else .null

/-- The JSON form of an event without tags. -/
def untaggedValue (event : Event) : Value :=
  if event.tags = [] then
    .object [("id", .string event.id.toHex), ("pubkey", .string (PublicKey.toHex event.pubkey)),
      ("created_at", .nat event.createdAt), ("kind", .nat event.kind), ("tags", .array []),
      ("content", .string event.content),
      ("sig", .string (String.ofList (event.sig.toList.flatMap hexByte)))]
  else .null

/-- The request of a client that takes whatever comes. -/
def relayRequest : FipsPubsubWireMessage noteCrate := .req "fips-1" [{ limit := some 8 }]

/-- The first note, announced with so many hops. -/
def relayInventory (hopLimit : UInt8) : FipsPubsubWireMessage noteCrate :=
  .inv ["fips-1"] noteA.id 1 334 hopLimit

def relayWant : FipsPubsubWireMessage noteCrate := .want noteA.id

def relayEvent : FipsPubsubWireMessage noteCrate := .event (some "fips-1") verifiedA

/-- The messages that the clients write. -/
def relayMessages : List (FipsPubsubWireMessage noteCrate) :=
  [relayRequest, relayInventory 4, relayInventory 3, relayWant, relayEvent]

/-- The crates as they write. -/
def writingJson : NostrJson where
  fromSlice _ := .error "expected value at line 1 column 1"
  toBytes value := utf8Bytes value.render
  filterValue := limitValue
  eventValue := untaggedValue
  clientFromValue _ := .error "Invalid message format"
  relayFromValue _ := .error "Invalid message format"
  eventIdFromHex _ := .error "Invalid character"

/-- The message that has this JSON form. -/
def relayMessage (value : Value) : Option (FipsPubsubWireMessage noteCrate) :=
  relayMessages.find? fun message => message.toValue writingJson = value

/-- The crates as they behave on these messages. -/
def relayJson : NostrJson :=
  { writingJson with
    toBytes value := if (relayMessage value).isSome then utf8Bytes value.render else []
    fromSlice frame :=
      match relayMessages.find? fun message => utf8Bytes (message.toValue writingJson).render = frame with
      | some message => .ok (message.toValue writingJson)
      | none => .error "expected value at line 1 column 1"
    clientFromValue value :=
      match relayMessage value with
      | some (.req subscriptionId filters) => .ok (.req subscriptionId filters)
      | _ => .error "Invalid message format"
    relayFromValue value :=
      match relayMessage value with
      | some (.event (some subscriptionId) event) => .ok (.event subscriptionId event.event)
      | _ => .error "Invalid message format"
    eventIdFromHex text := if text = noteA.id.toHex then .ok noteA.id else .error "Invalid character" }

/-- A client with the default options. -/
def relayClient (npub : String) : ClientSetup where
  toReplayClient := { defaultClient with json := relayJson }
  criteria _ _ := true
  npub
  peerTransport := none
  hasEventPolicy := false
  hasPeerPolicy := false
  unknownPeerReserve := 0
  targetHash _ _ := 0
  orderHash _ _ _ := 0
  subscriptionOrder := .ascending _
  wantOrder := .ascending _
  linkOrder := .ascending _
  peerOrder := Finset.ascending

/-- What a client is answered that is linked to these peers. -/
def relayAnswers (peers : List String) : ∀ request : Request noteCrate, request.Answer
  | .nowMs => (10 : ℕ)
  | .nowMsOfEach => (fun _ => 10 : String → ℕ)
  | .connectedPeerLinks =>
    (.ok (peers.map fun npub => ⟨npub, .routed⟩) : Except PubsubError (List ConnectedPeerLink))
  | .checkEvent _ _ => (.ok (.allow 0) : Except PubsubError PolicyDecision)
  | .selectMeshPeer _ => (.ok none : Except PubsubError (Option MeshPeer))
  | .query _ _ _ => ({ events := [] } : QueryReport noteCrate)
  | .queueFrame _ _ => (.ok () : Except PubsubError Unit)
  | .isInbound _ => false
  | .selectPeers _ | .dueServicePeers => ([] : List String)
  | .connectPeer _ | .abortPeer _ | .forgetPeer _ | .serviceDiscovered _ | .flushQueues
  | .handOver _ _ => ()

/-- The thread of an input runs to its end, as the thread with this index. -/
def relayTurn (peers : List String) (index : ℕ) (input : Input noteCrate) :
    List (World.Move (Input noteCrate) (@Request.Answer noteCrate)) :=
  .start input :: (List.replicate 30 [.proceed index, .reply index (relayAnswers peers)]).flatten

/-- A frame comes from a peer. -/
def relayReport (peer : String) (message : FipsPubsubWireMessage noteCrate) : Input noteCrate :=
  .wireReport ⟨[], [], [(peer, relayJson.toBytes (message.toValue relayJson))]⟩

/-- Client `b` asks `a`, is asked by `c`, fetches the note that `a` announces, and announces it to `c`. -/
def relayTurns : List (World.Move (Input noteCrate) (@Request.Answer noteCrate)) :=
  relayTurn ["a"] 0 (.subscribe [] false) ++ relayTurn [] 1 (relayReport "c" relayRequest) ++
    relayTurn [] 2 (relayReport "a" (relayInventory 4)) ++
    relayTurn [] 3 (relayReport "a" relayEvent) ++ relayTurn [] 4 .readyTurn

/-- The note as `b` hands it over. -/
def relayFound : QueryEvent noteCrate :=
  ⟨verifiedA, .ofFipsEndpoint "a", sourcePriorityFipsEndpoint⟩

abbrev relayWorld (moves : List (World.Move (Input noteCrate) (@Request.Answer noteCrate))) :
    World (ClientInner noteCrate) (Input noteCrate) (@Request.Answer noteCrate) :=
  (relayClient "b").run noteCrate moves

/-- In the run `b` queues an INV for `c` with one hop less than `a` announced; the note waits under the
first subscription, and the application takes it. -/
theorem relay_run :
    ((relayWorld relayTurns).history.any fun entry =>
      match entry with
      | .answered (.queueFrame peer frame) _ => decide (peer = "c" ∧
          (relayClient "b").decode frame = .ok (relayInventory 3))
      | _ => false) = true ∧
    (((relayWorld relayTurns).state.subscriptions.lookup "fips-1").isSome = true ∧
      ((relayWorld relayTurns).state.deliveries.lookup "fips-1").map LocalDelivery.waiting =
        some [relayFound]) ∧
    ((relayWorld (relayTurns ++ relayTurn [] 5 (.receive "fips-1"))).history.any fun entry =>
      match entry with
      | .answered (.handOver key found) _ => decide (key = "fips-1" ∧ found = relayFound)
      | _ => false) = true := by
  decide +kernel

/-- The note that `b` hands over came from `a`, was admitted, and matches a subscription of `b`. -/
theorem hands_over_admitted_relay : ∃ before : History noteCrate,
    before ++ [.answered (Request.handOver "fips-1" relayFound) ()] <+:
        (relayWorld (relayTurns ++ relayTurn [] 5 (.receive "fips-1"))).history ∧
      (relayClient "b").Sourced before verifiedA (.ofFipsEndpoint "a") ∧
        ∃ filters, (relayClient "b").Opened before filters ∧
          (relayClient "b").wants filters verifiedA = true := by
  obtain ⟨entry, hmem, hentry⟩ := List.any_eq_true.mp relay_run.2.2
  obtain ⟨before, after, hsplit⟩ := List.append_of_mem hmem
  split at hentry
  · next key found answer =>
    obtain ⟨rfl, rfl⟩ := of_decide_eq_true hentry
    have hbefore : before ++ [.answered (Request.handOver "fips-1" relayFound) ()] <+:
        (relayWorld (relayTurns ++ relayTurn [] 5 (.receive "fips-1"))).history :=
      ⟨after, by rw [hsplit, List.append_assoc]; rfl⟩
    exact ⟨before, hbefore,
      ClientSetup.hands_over_admitted (relayClient "b") _ before "fips-1" relayFound () hbefore⟩
  · cases hentry

/-- That INV is explained: `c` asked for the note, and the budget of the note allows three hops. -/
theorem queues_explained_relay : ∃ (before : History noteCrate) (frame : Frame)
      (answer : Except PubsubError Unit),
    before ++ [.answered (Request.queueFrame "c" frame) answer] <+: (relayWorld relayTurns).history ∧
      (relayClient "b").decode frame = .ok (relayInventory 3) ∧
        (relayClient "b").Explained before "c" frame := by
  obtain ⟨entry, hmem, hentry⟩ := List.any_eq_true.mp relay_run.1
  obtain ⟨before, after, hsplit⟩ := List.append_of_mem hmem
  split at hentry
  · next peer frame answer =>
    obtain ⟨rfl, hdecode⟩ := of_decide_eq_true hentry
    have hbefore : before ++ [.answered (Request.queueFrame "c" frame) answer] <+:
        (relayWorld relayTurns).history := ⟨after, by rw [hsplit, List.append_assoc]; rfl⟩
    exact ⟨before, frame, answer, hbefore, hdecode,
      ClientSetup.queues_explained (relayClient "b") _ before "c" frame answer hbefore⟩
  · cases hentry

/-- The note that waits matches the filters of the very subscription that it waits under. -/
theorem waits_for_subscriber_relay : ∃ active,
    (relayWorld relayTurns).state.subscriptions.lookup "fips-1" = some active ∧
      (relayClient "b").Opened (relayWorld relayTurns).history active.filters ∧
        (relayClient "b").Sourced (relayWorld relayTurns).history verifiedA (.ofFipsEndpoint "a") ∧
          (relayClient "b").wants active.filters verifiedA = true := by
  have hwaits : (relayClient "b").WaitsForSubscriber (relayWorld relayTurns).history
    (relayWorld relayTurns).state := ClientSetup.waits_for_subscriber (relayClient "b") relayTurns
  have hlookup := relay_run.2.1
  generalize relayWorld relayTurns = w at hwaits hlookup ⊢
  obtain ⟨active, hactive⟩ := Option.isSome_iff_exists.mp hlookup.1
  obtain ⟨delivery, hdelivery, hwaiting⟩ := Option.map_eq_some_iff.mp hlookup.2
  have hmem : relayFound ∈ delivery.waiting := by
    rw [hwaiting]
    exact List.mem_singleton_self relayFound
  obtain ⟨hopened, hfound⟩ := hwaits "fips-1" active delivery hactive hdelivery
  exact ⟨active, hactive, hopened, hfound relayFound hmem⟩

end NostrPubsub.Fips
