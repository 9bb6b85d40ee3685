import NostrPubsub.Fips.ClientContract

/-!
# Handling a frame keeps the contract

One lemma for each function of a client that sends or handles frames, along its structure: what it may
assume of the history it starts after, and what holds where it ends.
-/

namespace NostrPubsub.Fips.ClientSetup

open Threads

variable {nostr : NostrCrate} {client : ClientSetup} {history : History nostr} {α : Type}

/-! ## Requests that are free -/

/-- Reading the clock is free. -/
theorem runs_nowMs : client.Runs (nowMs : ClientThread nostr ℕ) history := by
  show client.Runs (Thread.request Request.nowMs) history
  exact runs_request fun _ => trivial

/-- So is reading it for each pending event. -/
theorem runs_nowMsOfEach : client.Runs (nowMsOfEach : ClientThread nostr _) history := by
  show client.Runs (Thread.request Request.nowMsOfEach) history
  exact runs_request fun _ => trivial

/-- Asking the peer policy is free. -/
theorem runs_selectMeshPeer {peer : String} :
    client.Runs (selectMeshPeer peer : ClientThread nostr _) history := by
  show client.Runs (Thread.request (Request.selectMeshPeer peer)) history
  exact runs_request fun _ => trivial

/-- Asking the driver to connect is free. -/
theorem runs_connectPeer {peer : String} :
    client.Runs (connectPeer peer : ClientThread nostr Unit) history := by
  show client.Runs (Thread.request (Request.connectPeer peer)) history
  exact runs_request fun _ => trivial

/-- Asking the driver to forget a peer is free. -/
theorem runs_forgetPeer {peer : String} :
    client.Runs (forgetPeer peer : ClientThread nostr Unit) history := by
  show client.Runs (Thread.request (Request.forgetPeer peer)) history
  exact runs_request fun _ => trivial

/-- A change that leaves the fields of the invariant alone. -/
theorem runs_modify_untouched {f : ClientInner nostr → ClientInner nostr}
    (h : ∀ s, Untouched s (f s)) : client.Runs (Thread.modify f) history :=
  runs_modify fun _ s _ hs => hs.untouched (h s)

/-- Each branch may use what its condition says. -/
theorem runs_ite {c : Prop} [Decidable c] {a b : ClientThread nostr α}
    (ha : c → client.Runs a history) (hb : ¬c → client.Runs b history) :
    client.Runs (if c then a else b) history := by
  split
  · next hc => exact ha hc
  · next hc => exact hb hc

/-! ## Sending -/

/-- The last check of `validate_outbound`. -/
theorem eq_true_of_guard {allowed : Bool} {error : PubsubError}
    (h : (if allowed then pure () else throw error : Except PubsubError Unit) = .ok ()) :
    allowed = true := by
  cases allowed with
  | true => rfl
  | false => cases h

/-- A subscription is checked by its filters, unless the role is `Full`. -/
theorem validateFilters_of_allows {advert : AdvertFilter} {role : ClientRole}
    {publications : Publications} {cached : EventId → Option (VerifiedEvent nostr)} {peer : String}
    {subscriptionId : String} {filters : List WireFilter} (hrole : role ≠ .full)
    (h : role.allows advert publications cached peer (.req subscriptionId filters) = .ok ()) :
    role.validateFilters advert filters = .ok () := by
  cases hfilters : role.validateFilters advert filters with
  | ok _ => rfl
  | error error =>
    cases role with
    | full => exact absurd rfl hrole
    | receiver authors => simp [ClientRole.allows, hfilters, bind, Except.bind] at h
    | discovery scope => simp [ClientRole.allows, hfilters, bind, Except.bind] at h
    | publisher => simp [ClientRole.allows, hfilters, bind, Except.bind] at h

/-- What `validate_outbound` lets pass is permitted. -/
theorem permitted_of_allows {s : ClientInner nostr} (hs : client.Holds history s) {peer : String}
    {message : FipsPubsubWireMessage nostr}
    (h : client.role.allows client.advert s.publications s.recentEvents.event peer message = .ok ()) :
    client.Permitted history peer message := by
  -- The full role may say everything; of the others each kind of message names its own condition.
  by_cases hfull : client.role = .full
  · exact .full hfull
  cases message with
  | req subscriptionId filters => exact .req (validateFilters_of_allows hfull h)
  | close subscriptionId => exact .close
  | want eventId =>
    refine .want fun hrole => ?_
    rw [hrole] at h
    exact Bool.false_ne_true (eq_true_of_guard h)
  | ok eventId accepted text =>
    cases hrole : client.role <;> rw [hrole] at h
    · exact absurd hrole hfull
    all_goals cases h
  | event subscriptionId event =>
    cases hrole : client.role <;> rw [hrole] at h
    · exact absurd hrole hfull
    · refine .event ?_
      rw [hrole]
      exact eq_true_of_guard h
    · cases h
    · cases subscriptionId with
      | some subscriptionId => cases h
      | none =>
        -- a publisher sends to the providers of its pending publications
        obtain ⟨publication, hlookup, hpeer⟩ := (Option.any_eq_true _ _).mp (eq_true_of_guard h)
        exact .publication hrole (hs.published _ publication hlookup peer (of_decide_eq_true hpeer))
  | inv subscriptionIds eventId eventKind payloadBytes hopLimit =>
    cases hrole : client.role <;> rw [hrole] at h
    · exact absurd hrole hfull
    · -- a receiver announces only events that it has in its cache
      obtain ⟨event, hevent, hmatch⟩ := (Option.any_eq_true _ _).mp (eq_true_of_guard h)
      obtain ⟨rfl, cached, hcached, rfl⟩ := RecentEvents.exists_of_event_eq_some hevent
      rw [Bool.and_eq_true, decide_eq_true_eq] at hmatch
      refine .inv hmatch.1 ?_ (hs.cached cached hcached).passed
      rw [hrole]
      exact hmatch.2
    · cases h
    · cases h

/-- What `validate_outbound` lets pass on the present state is permitted for good. -/
theorem permitted_of_permitsIn {s : ClientInner nostr} (hs : client.Holds history s) {peer : String}
    {frame : Frame} (h : client.permitsIn s peer frame = .ok ()) :
    ∃ message, client.decode frame = .ok message ∧ client.Permitted history peer message := by
  obtain ⟨message, hdecode, hallows⟩ := Except.bind_eq_ok.mp h
  exact ⟨message, hdecode, permitted_of_allows hs hallows⟩

/-- A frame that `validate_outbound` lets pass decodes to a message that the role permits. -/
theorem conforms_validateOutbound {peer : String} {frame : Frame} :
    client.Conforms (fun later result => result = .ok () → ∃ message : FipsPubsubWireMessage nostr,
      client.decode frame = .ok message ∧ client.Permitted later peer message)
      (client.validateOutbound peer frame) history := by
  refine Thread.Safe.read fun later s _ hs last hlast hok => ?_
  obtain ⟨message, hdecode, hpermitted⟩ := permitted_of_permitsIn hs hok
  exact ⟨message, hdecode, hpermitted.mono hlast⟩

/-- A send command may be queued for a frame that is explained; the other commands are free. -/
theorem runs_trySend {command : TransportCommand}
    (h : ∀ peer frame, command = .send peer frame → client.Explained history peer frame) :
    client.Runs (client.trySend command : ClientThread nostr _) history := by
  refine runs_atomic fun later s hlater hs => ?_
  split
  · exact hs
  · split
    · refine { hs with commanded := fun peer frame hmem => ?_ }
      rcases List.mem_append.mp hmem with hold | hnew
      · exact hs.commanded peer frame hold
      · exact (h peer frame (List.mem_singleton.mp hnew).symm).mono hlater
    · exact hs

/-- A frame that says something justified may be sent: `validate_outbound` adds the permission. -/
theorem runs_sendFrame {peer : String} {frame : Frame} {said : FipsPubsubWireMessage nostr}
    (hencode : client.encode said = .ok frame) (hjustified : client.Justified history peer said) :
    client.Runs (client.sendFrame peer frame : ClientThread nostr _) history := by
  unfold sendFrame
  refine Thread.Safe.bind conforms_validateOutbound fun later result hlater hresult => ?_
  cases result with
  | error error => exact runs_pure
  | ok _ =>
    obtain ⟨message, hdecode, hpermitted⟩ := hresult rfl
    refine runs_bind (runs_trySend ?_) fun _ _ _ => runs_pure
    rintro _ _ ⟨⟩
    exact .guarded hencode (hjustified.mono hlater) hdecode hpermitted

/-- `send_command` queues no more than `try_send`. -/
theorem runs_sendCommand {command : TransportCommand}
    (h : ∀ peer frame, command = .send peer frame → client.Explained history peer frame) :
    client.Runs (client.sendCommand command : ClientThread nostr Unit) history :=
  runs_bind (runs_trySend h) fun _ _ _ => runs_pure

/-- Closing a delivery lets nothing wait that did not wait before. -/
theorem runs_closeDelivery {key : String} :
    client.Runs (closeDelivery key : ClientThread nostr Unit) history := by
  refine runs_modify fun later s _ hs => ?_
  split
  · next delivery hlookup => exact hs.deliver hlookup fun found hmem => .inl hmem
  · exact hs

/-- A CLOSE needs no justification. -/
theorem runs_sendClose {key : String} {peers : Finset String} :
    client.Runs (client.sendClose key peers : ClientThread nostr Unit) history := by
  unfold sendClose
  split
  · exact runs_pure
  · next frame hencode =>
    refine runs_each fun peer _ later _ => runs_sendCommand ?_
    rintro _ _ ⟨⟩
    exact .closed hencode

/-- Closing takes the subscription out, closes its delivery, ends its pending wants and sends a
CLOSE. -/
theorem runs_closeSubscription {key : String} :
    client.Runs (client.closeSubscription key : ClientThread nostr Unit) history := by
  have herase : ∀ later (s : ClientInner nostr), client.Holds later s →
      client.Holds later { s with subscriptions := s.subscriptions.erase key } :=
    fun later s hs => hs.resubscribe fun _ active hactive =>
      ⟨active, (Finmap.lookup_erase_eq_some.mp hactive).2, rfl⟩
  unfold closeSubscription
  refine runs_bind (runs_atomic fun later s _ hs => herase later s hs) fun _ active _ => ?_
  cases active with
  | none => exact runs_pure
  | some active =>
    refine runs_bind runs_closeDelivery fun _ _ _ => ?_
    refine runs_bind (runs_modify fun _ s _ hs =>
      hs.pend client.wantOrder (.removeSubscription key) nofun) fun _ _ _ => ?_
    refine runs_bind (runs_modify_untouched fun s => ⟨rfl, rfl, rfl, rfl, rfl, rfl, rfl, rfl⟩)
      fun _ _ _ => ?_
    exact runs_sendClose

/-- The frame of an inventory says what the event is. -/
theorem encode_of_inventory {subscriptionIds : List String} {event : VerifiedEvent nostr}
    {hopLimit : UInt8} {frame : Frame}
    (h : client.inventory subscriptionIds event hopLimit = .ok frame) :
    ∃ payloadBytes, eventPayloadBytes event = .ok payloadBytes ∧
      @encode nostr client (.inv subscriptionIds event.event.id (.ofNat event.event.kind) payloadBytes
        hopLimit) = .ok frame := by
  unfold ReplayClient.inventory at h
  split at h
  · cases h
  · cases hbytes : eventPayloadBytes event with
    | error error =>
      rw [hbytes] at h
      cases h
    | ok payloadBytes =>
      rw [hbytes] at h
      exact ⟨payloadBytes, rfl, h⟩

/-- The frame of an inventory that is built is the INV of the event with its size. -/
theorem conforms_inventoryFrame {subscriptionIds : List String} {event : VerifiedEvent nostr}
    {hopLimit : UInt8} (hpassed : client.Passed history event)
    (hbudget : hopLimit = 0 ∨ client.Budget history event hopLimit) :
    client.Conforms (fun _ result => ∀ frame, result = .ok frame →
        ∃ payloadBytes, eventPayloadBytes event = .ok payloadBytes ∧
          @encode nostr client (.inv subscriptionIds event.event.id (.ofNat event.event.kind)
            payloadBytes hopLimit) = .ok frame)
      (client.inventoryFrame subscriptionIds event hopLimit) history := by
  unfold inventoryFrame
  split
  · refine Thread.Safe.pure fun _ _ frame herror => ?_
    cases herror
  · refine Thread.Safe.bind (runs_modify fun later s hlater hs => hs.cache fun cached hcached => ?_)
      fun _ _ _ _ => Thread.Safe.pure fun _ _ frame hframe => encode_of_inventory hframe
    rcases RecentEvents.mem_entries_keepApproved hcached with hold | ⟨hrole, hevent, hname, hhops⟩
    · exact .inl hold
    · -- the receiver keeps what it announces, under a name of its own
      rw [hevent, hhops]
      have hpassed' := hpassed.mono hlater
      exact .inr ⟨⟨hpassed'.1, .inr ⟨hrole, hname, hpassed'.2⟩⟩,
        hbudget.imp_right fun h => h.mono hlater⟩

/-- Every target of the loop asked for the event under the subscriptions that the INV lists. -/
theorem runs_sendInventoriesLoop {event : VerifiedEvent nostr} {hopLimit : UInt8}
    {targets : List (String × List String)} {sent : ℕ} (hpassed : client.Passed history event)
    (hbudget : client.Budget history event hopLimit)
    (hasks : ∀ target ∈ targets, ∀ id ∈ target.2, client.Asks history target.1 id event) :
    client.Runs (client.sendInventoriesLoop event hopLimit targets sent) history := by
  induction targets generalizing history sent with
  | nil => exact runs_pure
  | cons target rest ih =>
    have hrest : ∀ later, history <+: later → ∀ sent,
        client.Runs (client.sendInventoriesLoop event hopLimit rest sent) later :=
      fun later hlater sent => ih (hpassed.mono hlater) (hbudget.mono hlater)
        fun other hother id hid => (hasks other (List.mem_cons_of_mem _ hother) id hid).mono hlater
    obtain ⟨peer, subscriptionIds⟩ := target
    rw [sendInventoriesLoop]
    refine Thread.Safe.bind (conforms_inventoryFrame hpassed (.inr hbudget))
      fun later result hlater hresult => ?_
    -- A frame that cannot be built or queued does not stop the loop.
    cases result with
    | error error => exact hrest later hlater _
    | ok frame =>
      obtain ⟨payloadBytes, hbytes, hencode⟩ := hresult frame rfl
      refine runs_bind (runs_sendFrame hencode (.inv (fun id hid => ?_) (hpassed.mono hlater) hbytes
        (hbudget.mono hlater))) fun last result hlast => ?_
      · exact (hasks _ List.mem_cons_self id hid).mono hlater
      · cases result with
        | error error => exact hrest last (hlater.trans hlast) _
        | ok _ => exact hrest last (hlater.trans hlast) _

/-- An event without hops left is not announced, so that the loop has a budget. -/
theorem runs_sendInventories {event : VerifiedEvent nostr} {hopLimit : UInt8}
    {targets : List (String × List String)} (hpassed : client.Passed history event)
    (hbudget : hopLimit = 0 ∨ client.Budget history event hopLimit)
    (hasks : ∀ target ∈ targets, ∀ id ∈ target.2, client.Asks history target.1 id event) :
    client.Runs (client.sendInventories targets event hopLimit) history := by
  unfold sendInventories
  split
  · exact runs_pure
  · next hpositive => exact runs_sendInventoriesLoop hpassed (hbudget.resolve_left hpositive) hasks

/-! ## Policies -/

/-- A decision that lets the event in is one of the policy. -/
theorem conforms_eventDecision {event : VerifiedEvent nostr} {source : EventSource} :
    client.Conforms (fun later decision => admits decision = true → client.Admitted later event source)
      (client.eventDecision event source) history := by
  unfold eventDecision
  split
  · refine Thread.Safe.request (fun _ _ => trivial) fun later answer last _ hlast hadmits _ => ?_
    exact ⟨answer, hlast.subset (List.mem_append_right _ List.mem_cons_self), hadmits⟩
  · next hpolicy => exact Thread.Safe.pure fun _ _ _ hsome => absurd hsome hpolicy

/-- `event_is_admitted` says yes only after the policy did, for the same event and source. -/
theorem conforms_eventIsAdmitted {event : VerifiedEvent nostr} {source : EventSource} :
    client.Conforms (fun later admitted => admitted = true → client.Admitted later event source)
      (client.eventIsAdmitted event source) history := by
  unfold eventIsAdmitted
  refine Thread.Safe.bind conforms_eventDecision fun later decision _ hdecision => ?_
  exact Thread.Safe.pure fun last hlast hadmits => (hdecision hadmits).mono hlast

/-- Scores are no part of the contract, and a peer over the threshold only costs a cooldown command.
-/
theorem runs_recordProviderViolation {peer : String} {violation : ProviderViolation} :
    client.Runs (client.recordProviderViolation peer violation : ClientThread nostr Unit) history := by
  unfold recordProviderViolation
  refine runs_bind runs_nowMs fun _ now _ => ?_
  refine runs_bind (runs_untouched fun s => ⟨rfl, rfl, rfl, rfl, rfl, rfl, rfl, rfl⟩)
    fun _ cooldown _ => ?_
  cases cooldown with
  | none => exact runs_pure
  | some cooldown =>
    refine runs_sendCommand ?_
    rintro _ _ ⟨⟩

/-- Nor are cooldowns. -/
theorem runs_peerIsInCooldown {peer : String} :
    client.Runs (peerIsInCooldown peer : ClientThread nostr Bool) history :=
  runs_bind runs_nowMs fun _ _ _ => runs_untouched fun _ => ⟨rfl, rfl, rfl, rfl, rfl, rfl, rfl, rfl⟩

/-- Who may be selected is asked of the policy, peer by peer. -/
theorem runs_policyCandidates {ids : List String} :
    client.Runs (policyCandidates ids : ClientThread nostr _) history := by
  induction ids generalizing history with
  | nil => exact runs_pure
  | cons id rest ih =>
    rw [policyCandidates]
    refine runs_bind runs_selectMeshPeer fun _ result _ => ?_
    cases result with
    | error error => exact runs_pure
    | ok candidate =>
      refine runs_bind ih fun _ result _ => ?_
      cases result with
      | error error => exact runs_pure
      | ok candidates => cases candidate <;> exact runs_pure

/-- Selecting peers changes nothing. -/
theorem runs_selectPolicyPeers {ids : List String} {eventId : EventId} :
    client.Runs (client.selectPolicyPeers ids eventId : ClientThread nostr _) history := by
  unfold selectPolicyPeers
  refine runs_bind runs_policyCandidates fun _ result _ => ?_
  cases result with
  | error error => exact runs_pure
  | ok candidates => exact runs_pure

/-- A subscription of a peer that matches an event is one that the peer asked for. -/
theorem Holds.asks {s : ClientInner nostr} (hs : client.Holds history s) {peer : String}
    {subscription : PubsubPeerSubscription} {event : VerifiedEvent nostr}
    (hlists : s.peerSubscriptions.Lists peer subscription)
    (hmatch : (subscription.filters.any fun filter => filter.matchEvent event.event) = true) :
    client.Asks history peer subscription.subscriptionId event := by
  obtain ⟨filters, hreceived, hfilters⟩ := hs.asked peer subscription hlists
  refine ⟨filters, hreceived, ?_⟩
  rw [hfilters, toFilters, List.any_map] at hmatch
  exact hmatch

/-- A target that matches has asked for the event under each of its subscriptions. -/
theorem Holds.asks_matchingTargets {s : ClientInner nostr} (hs : client.Holds history s)
    {event : VerifiedEvent nostr} {excludedPeer : Option String} {target : String × List String}
    (h : target ∈ matchingTargets s.peerSubscriptions event excludedPeer) :
    ∀ id ∈ target.2, client.Asks history target.1 id event := by
  obtain ⟨entry, hentry, hsome⟩ := List.mem_filterMap.mp h
  have hset := Table.mem_entriesAscending.mp hentry
  split at hsome
  · cases hsome
  · split at hsome
    · cases hsome
    · next ids hids =>
      cases hsome
      intro id hid
      obtain ⟨subscription, hsubscription, rfl⟩ := List.mem_map.mp hid
      obtain ⟨hmem, hmatch⟩ := List.mem_filter.mp hsubscription
      exact hs.asks ⟨entry.2, hset, PeerSubscriptionSet.lists_of_mem_intoValues hmem⟩ hmatch

/-- The bound drops targets and adds none. -/
theorem mem_of_mem_boundedDeliveryTargets {targets : List (String × List String)} {eventId : EventId}
    {target : String × List String} (h : target ∈ client.boundedDeliveryTargets targets eventId) :
    target ∈ targets := by
  unfold boundedDeliveryTargets at h
  split at h
  · exact h
  · exact (List.mem_insertionSort _).mp (List.mem_of_mem_take h)

/-- The peers for a live event asked for it, under every subscription that is named. -/
theorem conforms_peerDeliveryTargets {event : VerifiedEvent nostr} {excludedPeer : Option String} :
    client.Conforms (fun later result => ∀ targets, result = .ok targets → ∀ target ∈ targets,
        ∀ id ∈ target.2, client.Asks later target.1 id event)
      (client.peerDeliveryTargets event excludedPeer) history := by
  have hread : client.Conforms (fun later targets => ∀ target ∈ targets, ∀ id ∈ target.2,
        client.Asks later target.1 id event)
      (Thread.read fun s : ClientInner nostr => matchingTargets s.peerSubscriptions event excludedPeer)
      history :=
    Thread.Safe.read fun _ s _ hs _ hlast target htarget id hid =>
      (hs.asks_matchingTargets htarget id hid).mono hlast
  unfold peerDeliveryTargets
  refine Thread.Safe.bind hread fun later targets _ htargets => ?_
  split
  · refine Thread.Safe.bind runs_selectPolicyPeers fun last result hlast _ => ?_
    cases result with
    | error error =>
      refine Thread.Safe.pure fun _ _ chosen herror => ?_
      cases herror
    | ok selected =>
      refine Thread.Safe.pure fun last' hlast' chosen hok target htarget id hid => ?_
      cases hok
      -- the policy chooses among the targets
      obtain ⟨peer, -, hsome⟩ := List.mem_filterMap.mp htarget
      obtain ⟨ids, hlookup, rfl⟩ := Option.map_eq_some_iff.mp hsome
      obtain ⟨front, back, hsplit, -⟩ := List.lookup_eq_some_iff.mp hlookup
      have hmem : (peer, ids) ∈ targets := by
        rw [hsplit]
        exact List.mem_append_right _ List.mem_cons_self
      exact (htargets _ hmem id hid).mono (hlast.trans hlast')
  · refine Thread.Safe.pure fun last hlast chosen hok target htarget id hid => ?_
    cases hok
    exact (htargets target (mem_of_mem_boundedDeliveryTargets htarget) id hid).mono hlast

/-! ## Requests for history -/

/-- A replay of a single event may be queued for a peer that wants it. -/
theorem runs_queueReplay {peer : String} {query : ReplayQuery}
    (hwanted : ∀ eventId, query = .event eventId →
      client.Received history peer (.want eventId : FipsPubsubWireMessage nostr)) :
    client.Runs (client.queueReplay peer query : ClientThread nostr Bool) history := by
  unfold queueReplay
  refine runs_bind runs_read fun later count hlater => ?_
  split
  · exact runs_pure
  · refine runs_bind runs_read fun last source hlast => ?_
    cases source with
    | none => exact runs_pure
    | some source =>
      -- The count and the source were read before; a request is queued only if there still is room.
      refine runs_atomic fun last' s hlast' hs => ?_
      split
      · refine { hs with replaying := fun request hrequest eventId hquery => ?_ }
        rcases List.mem_append.mp hrequest with hold | hnew
        · exact hs.replaying request hold eventId hquery
        · rw [List.mem_singleton.mp hnew] at hquery ⊢
          exact (hwanted eventId hquery).mono ((hlater.trans hlast).trans hlast')
      · exact hs

/-- The loop of `handle_req` announces cached events that passed and that the peer asked for. -/
theorem runs_advertiseLoop {peer subscriptionId : String} {list : List (CachedEvent nostr)}
    {excluded : List EventId} (h : ∀ cached ∈ list, client.Passed history cached.event ∧
      client.Budget history cached.event cached.hopLimit ∧
      client.Asks history peer subscriptionId cached.event) :
    client.Runs (client.advertiseLoop peer subscriptionId list excluded) history := by
  induction list generalizing history excluded with
  | nil => exact runs_pure
  | cons cached rest ih =>
    have hrest : ∀ later, history <+: later → ∀ excluded,
        client.Runs (client.advertiseLoop peer subscriptionId rest excluded) later := by
      intro later hlater excluded
      refine ih fun other hother => ?_
      obtain ⟨hpassed, hbudget, hasks⟩ := h other (List.mem_cons_of_mem _ hother)
      exact ⟨hpassed.mono hlater, hbudget.mono hlater, hasks.mono hlater⟩
    obtain ⟨hpassed, hbudget, hasks⟩ := h cached List.mem_cons_self
    rw [advertiseLoop]
    refine Thread.Safe.bind (conforms_inventoryFrame hpassed (.inr hbudget))
      fun later result hlater hresult => ?_
    cases result with
    | error error => exact hrest later hlater _
    | ok frame =>
      obtain ⟨payloadBytes, hbytes, hencode⟩ := hresult frame rfl
      refine runs_bind (runs_sendFrame hencode (.inv (fun id hid => ?_) (hpassed.mono hlater) hbytes
        (hbudget.mono hlater))) fun last _ hlast => hrest last (hlater.trans hlast) _
      rw [List.mem_singleton.mp hid]
      exact hasks.mono hlater

/-- What may be replayed from the cache. -/
theorem conforms_replayable {filters : List WireFilter} :
    client.Conforms (fun later list => ∀ cached ∈ list, client.Passed later cached.event ∧
        client.Budget later cached.event cached.hopLimit ∧ client.wants filters cached.event = true)
      (Thread.read fun s : ClientInner nostr =>
        s.recentEvents.replayable (client.toFilters filters)) history := by
  refine Thread.Safe.read fun later s _ hs last hlast cached hcached => ?_
  obtain ⟨hmatching, hpositive⟩ := List.mem_filter.mp hcached
  obtain ⟨hmem, hmatch⟩ := List.mem_filter.mp hmatching
  have hhops : cached.hopLimit ≠ 0 := by
    intro hzero
    rw [hzero] at hpositive
    exact absurd (of_decide_eq_true hpositive) (by decide)
  refine ⟨(hs.cached cached hmem).passed.mono hlast,
    ((hs.budgeted cached hmem).resolve_left hhops).mono hlast, ?_⟩
  rw [toFilters, List.any_map] at hmatch
  exact hmatch

/-- A REQ registers what its peer asks for, which justifies the announcements that follow. -/
theorem runs_handleReq {peer subscriptionId : String} {filters : List WireFilter}
    (hreceived : client.Received history peer
      (.req subscriptionId filters : FipsPubsubWireMessage nostr)) :
    client.Runs (client.handleReq peer subscriptionId filters : ClientThread nostr Unit) history := by
  have hremember : client.Runs (client.rememberPeerSubscription peer subscriptionId filters :
      ClientThread nostr _) history := by
    refine runs_atomic fun later s hlater hs => ?_
    refine { hs with asked := fun other subscription hlists => ?_ }
    -- What the store lists for the peer now is what it just asked or had asked before.
    rcases PubsubPeerSubscriptionStore.lists_of_upsertFilters hlists with hold | ⟨rfl, rfl⟩
    · exact hs.asked other subscription hold
    · exact ⟨filters, hreceived.mono hlater, rfl⟩
  unfold handleReq
  refine runs_bind hremember fun later result hlater => ?_
  cases result with
  | error error => exact runs_pure
  | ok _ =>
    refine Thread.Safe.bind conforms_replayable fun last cached hlast hcached => ?_
    refine runs_bind (runs_advertiseLoop fun other hother => ?_) fun _ excluded _ => ?_
    · -- the peer asks for the event by the very request that is handled
      obtain ⟨hpassed, hbudget, hwants⟩ := hcached other (List.mem_of_mem_take hother)
      exact ⟨hpassed, hbudget, filters, hreceived.mono (hlater.trans hlast), hwants⟩
    · split
      · exact runs_bind (runs_queueReplay nofun) fun _ _ _ => runs_pure
      · exact runs_pure

/-! ## Local delivery -/

/-- An event that an open subscription asks for is handed to its delivery. -/
theorem Holds.deliverLocal {s : ClientInner nostr} (hs : client.Holds history s) {key : String}
    {active : ActiveSubscription} {event : VerifiedEvent nostr} {source : EventSource}
    (hactive : s.subscriptions.lookup key = some active)
    (hwants : client.wants active.filters event = true)
    (hsourced : client.Sourced history event source) :
    client.Holds history (deliverLocal key event source s).2 ∧
      (ClientSetup.deliverLocal key event source s).2.subscriptions = s.subscriptions := by
  unfold ClientSetup.deliverLocal
  split
  · exact ⟨hs, rfl⟩
  · next delivery hlookup =>
    refine ⟨hs.deliver hlookup fun found hfound => ?_, rfl⟩
    rcases LocalDelivery.mem_waiting_enqueue hfound with hold | rfl
    · exact .inl hold
    · exact .inr ⟨hsourced, active, hactive, hwants⟩

/-- The active subscriptions are those of the table, in some order. -/
theorem mem_activeSubscriptions {s : ClientInner nostr} {entry : String × ActiveSubscription} :
    entry ∈ client.activeSubscriptions s ↔ s.subscriptions.lookup entry.1 = some entry.2 := by
  unfold activeSubscriptions
  constructor
  · intro h
    obtain ⟨visited, hvisited, rfl⟩ := List.mem_map.mp h
    exact client.subscriptionOrder.mem_visit.mp hvisited
  · intro h
    exact List.mem_map.mpr ⟨⟨entry.1, entry.2⟩, client.subscriptionOrder.mem_visit.mpr h, rfl⟩

/-- What is delivered to a subscription was admitted and matches its filters. -/
theorem Holds.deliverLoop {s : ClientInner nostr} (hs : client.Holds history s) {peer : String}
    {event : VerifiedEvent nostr} (hknown : client.Known history event)
    (hadmitted : client.Admitted history event (.ofFipsEndpoint peer))
    {list : List (String × ActiveSubscription)}
    (hlist : ∀ entry ∈ list, s.subscriptions.lookup entry.1 = some entry.2)
    (result : Bool × List String) :
    client.Holds history (client.deliverLoop peer event list result s).2 := by
  induction list generalizing s result with
  | nil => exact hs
  | cons entry rest ih =>
    obtain ⟨key, active⟩ := entry
    obtain ⟨delivered, lagged⟩ := result
    have hrest : ∀ entry ∈ rest, s.subscriptions.lookup entry.1 = some entry.2 :=
      fun entry hentry => hlist entry (List.mem_cons_of_mem _ hentry)
    rw [ClientSetup.deliverLoop]
    split
    · exact ih hs hrest _
    · next htaken =>
      -- only a subscription that asks for the event takes it
      have hwants : client.wants active.filters event = true := by
        rw [not_or, not_or] at htaken
        exact Bool.eq_true_of_not_eq_false htaken.2.1
      obtain ⟨hholds, hsame⟩ := hs.deliverLocal (hlist _ List.mem_cons_self) hwants
        ⟨hknown, .inl hadmitted⟩
      exact ih hholds (by rwa [hsame]) _

/-- The delivery of an admitted event, as one step. -/
theorem runs_deliverLocalEvent {peer : String} {event : VerifiedEvent nostr}
    (hknown : client.Known history event)
    (hadmitted : client.Admitted history event (.ofFipsEndpoint peer)) :
    client.Runs (client.deliverLocalEvent peer event) history := by
  unfold deliverLocalEvent
  refine runs_bind (runs_atomic fun later s hlater hs => ?_) fun _ result _ => ?_
  · exact hs.deliverLoop (hknown.mono hlater) (hadmitted.mono hlater)
      (fun entry => mem_activeSubscriptions.mp) _
  · obtain ⟨delivered, lagged⟩ := result
    exact runs_bind (runs_each fun _ _ _ _ => runs_closeSubscription) fun _ _ _ => runs_pure

/-! ## Events -/

/-- An event is cached with the source it was admitted from and a hop limit within its budget. -/
theorem runs_rememberEvent {event : VerifiedEvent nostr} {source : EventSource} {hopLimit : UInt8}
    (hsourced : client.Sourced history event source)
    (hbudget : hopLimit = 0 ∨ client.Budget history event hopLimit) :
    client.Runs (rememberEvent event source hopLimit) history := by
  refine runs_atomic fun later s hlater hs => hs.cache fun cached hcached => ?_
  rcases RecentEvents.mem_entries_insert hcached with hold | rfl
  · exact .inl hold
  · exact .inr ⟨hsourced.mono hlater, hbudget.imp_right fun h => h.mono hlater⟩

/-- What is left of the hop limit of an announcement. -/
theorem budget_of_announced {event : VerifiedEvent nostr} {hops : ℕ}
    (h : client.AnnouncedWithin history event.event.id.toHex hops) :
    UInt8.ofNat (hops - 1) = 0 ∨ client.Budget history event (.ofNat (hops - 1)) := by
  obtain ⟨peer, ids, eventId, kind, bytes, hopLimit, hreceived, hid, rfl⟩ := h
  cases hzero : hopLimit.toNat with
  | zero => exact .inl rfl
  | succ left =>
    -- a hop limit fits in a byte, so taking one off does not wrap
    have hlt := hopLimit.toNat_lt
    have hleft : (UInt8.ofNat left).toNat = left := by
      rw [UInt8.toNat_ofNat']
      omega
    refine .inr (.inr ⟨peer, ids, eventId, kind, bytes, hopLimit, hreceived, hid, ?_⟩)
    rw [Nat.add_sub_cancel, hleft, hzero]

/-- A WANT that is completed leaves one hop less than an announcement of the event. -/
theorem conforms_completeWant {peer subscriptionId : String} {event : VerifiedEvent nostr} :
    client.Conforms (fun later result => ∀ hopLimit, result = .ok (some hopLimit) →
        hopLimit = 0 ∨ client.Budget later event hopLimit)
      (client.completeWant peer subscriptionId event) history := by
  unfold completeWant
  split
  · refine Thread.Safe.pure fun _ _ _ herror => ?_
    cases herror
  · next payloadBytes hbytes =>
    refine Thread.Safe.bind runs_read fun _ taken _ _ => ?_
    split
    · refine Thread.Safe.pure fun _ _ _ hnone => ?_
      cases hnone
    · -- the pending request has the hop limit of the announcement that it was made for
      have htake : ∀ later, client.Conforms (fun last pending => ∀ found, pending = some found →
            client.AnnouncedWithin last event.event.id.toHex found.hopLimit)
          (Thread.atomic fun s : ClientInner nostr =>
            let taken := s.pendingWants.takeMatching event.event.id.toHex peer subscriptionId
              event.event.kind payloadBytes.toNat
            (taken.1, { s with pendingWants := taken.2 })) later := by
        intro later
        refine Thread.Safe.atomic fun last s _ hs => ⟨?_, fun last' hlast' found hfound => ?_⟩
        · exact hs.pend client.wantOrder (.takeMatching event.event.id.toHex peer subscriptionId
            event.event.kind payloadBytes.toNat) nofun
        · have hlookup := PendingWants.lookup_of_takeMatching hfound
          exact (hs.tracked _ found hlookup).2.mono hlast'
      refine Thread.Safe.bind (htake _) fun later pending _ hpending => ?_
      refine Thread.Safe.pure fun last hlast hopLimit hsome => ?_
      cases pending with
      | none => cases hsome
      | some found =>
        cases hsome
        exact budget_of_announced ((hpending found rfl).mono hlast)

/-- The hop limit that an event arrives with. -/
theorem conforms_arrivalHops {peer : String} {subscriptionId : Option String}
    {event : VerifiedEvent nostr}
    (hpushed : subscriptionId = none → client.Received history peer (.event none event)) :
    client.Conforms (fun later hopLimit => hopLimit = 0 ∨ client.Budget later event hopLimit)
      (client.arrivalHops peer subscriptionId event) history := by
  unfold arrivalHops
  cases subscriptionId with
  | none =>
    exact Thread.Safe.pure fun later hlater =>
      .inr (.inl ⟨rfl, .pushed ((hpushed rfl).mono hlater)⟩)
  | some subscriptionId =>
    refine Thread.Safe.bind conforms_completeWant fun later result _ hresult => ?_
    split
    · next hopLimit =>
      exact Thread.Safe.pure fun last hlast =>
        (hresult hopLimit rfl).imp_right fun h => h.mono hlast
    · -- nobody waits for the event, so it goes no further
      exact Thread.Safe.pure fun _ _ => .inl rfl

/-- An event that passed may be announced to the peers that ask for it. -/
theorem runs_advertise {event : VerifiedEvent nostr} {peer : String} {hopLimit : UInt8}
    (hpassed : client.Passed history event)
    (hbudget : hopLimit = 0 ∨ client.Budget history event hopLimit) :
    client.Runs (client.advertise event peer hopLimit) history := by
  unfold advertise
  refine Thread.Safe.bind conforms_peerDeliveryTargets fun later result hlater hresult => ?_
  cases result with
  | error error => exact runs_pure
  | ok targets =>
    exact runs_bind (runs_sendInventories (hpassed.mono hlater)
      (hbudget.imp_right fun h => h.mono hlater) (hresult targets rfl)) fun _ _ _ => runs_pure

/-- An admitted event is announced and cached with the hops that are left. -/
theorem runs_forwardEvent {event : VerifiedEvent nostr} {peer : String} {hopLimit : UInt8}
    (hknown : client.Known history event)
    (hadmitted : client.Admitted history event (.ofFipsEndpoint peer))
    (hbudget : hopLimit = 0 ∨ client.Budget history event hopLimit) :
    client.Runs (client.forwardEvent event peer hopLimit) history := by
  unfold forwardEvent
  refine runs_bind (runs_rememberEvent ⟨hknown, .inl hadmitted⟩ hbudget) fun later isNew hlater => ?_
  split
  · exact runs_advertise ⟨hknown.mono hlater, _, hadmitted.mono hlater⟩
      (hbudget.imp_right fun h => h.mono hlater)
  · exact runs_pure

/-- An admitted event is delivered, and forwarded within its budget. -/
theorem runs_handleEvent {peer : String} {subscriptionId : Option String}
    {event : VerifiedEvent nostr}
    (hpushed : subscriptionId = none → client.Received history peer (.event none event))
    (hknown : client.Known history event)
    (hadmitted : client.Admitted history event (.ofFipsEndpoint peer)) :
    client.Runs (client.handleEvent peer subscriptionId event) history := by
  unfold handleEvent
  refine Thread.Safe.bind (conforms_arrivalHops hpushed) fun later hopLimit hlater hbudget => ?_
  refine runs_bind (runs_deliverLocalEvent (hknown.mono hlater) (hadmitted.mono hlater))
    fun last delivered hlast => ?_
  split
  · exact runs_forwardEvent (hknown.mono (hlater.trans hlast)) (hadmitted.mono (hlater.trans hlast))
      (hbudget.imp_right fun h => h.mono hlast)
  · exact runs_pure

/-- A publication that is taken was admitted from the peer that pushed it. -/
theorem runs_takePublication {peer : String} {event : VerifiedEvent nostr}
    (hpushed : client.Received history peer (.event none event))
    (hadmitted : client.Admitted history event (.ofFipsEndpoint peer)) :
    client.Runs (client.takePublication peer event) history := by
  have hbudget : ∀ later, history <+: later →
      client.options.maxHops = 0 ∨ client.Budget later event client.options.maxHops :=
    fun later hlater => .inr (.inl ⟨rfl, .pushed (hpushed.mono hlater)⟩)
  unfold takePublication
  refine runs_bind (runs_deliverLocalEvent hpushed.known hadmitted) fun later _ hlater => ?_
  have hknown := hpushed.known.mono hlater
  refine runs_bind (runs_rememberEvent ⟨hknown, .inl (hadmitted.mono hlater)⟩ (hbudget later hlater))
    fun last isNew hlast => ?_
  split
  · exact runs_advertise ⟨hknown.mono hlast, _, (hadmitted.mono hlater).mono hlast⟩
      (hbudget last (hlater.trans hlast))
  · exact runs_pure

/-- A receipt answers the publication of its peer, and says yes only to an admitted event. -/
theorem runs_sendReceipt {peer : String} {event : VerifiedEvent nostr} {accepted : Bool}
    (hpushed : client.Received history peer (.event none event))
    (haccepted : accepted = true → client.Admitted history event (.ofFipsEndpoint peer)) :
    client.Runs (client.sendReceipt peer event.event.id accepted : ClientThread nostr Unit)
      history := by
  unfold sendReceipt
  split
  · exact runs_pure
  · next frame hencode =>
    exact runs_bind (runs_sendFrame hencode (.receipt hpushed haccepted)) fun _ _ _ => runs_pure

/-- A publication is checked, taken and receipted. -/
theorem runs_acceptPublication {peer : String} {event : VerifiedEvent nostr}
    (hpushed : client.Received history peer (.event none event)) :
    client.Runs (client.acceptPublication peer event) history := by
  unfold acceptPublication
  refine Thread.Safe.bind conforms_eventIsAdmitted fun later accepted hlater haccepted => ?_
  have hpushed' := hpushed.mono hlater
  split
  · next htrue =>
    refine runs_bind (runs_takePublication hpushed' (haccepted htrue)) fun last _ hlast => ?_
    exact runs_sendReceipt (hpushed'.mono hlast) fun _ => (haccepted htrue).mono hlast
  · exact runs_sendReceipt hpushed' nofun

/-- An event that the policy admits goes on to `handle_event`, and any other ends here. -/
theorem runs_admitReceived {peer : String} {responseId : Option String} {event : VerifiedEvent nostr}
    (hpushed : responseId = none → client.Received history peer (.event none event))
    (hknown : client.Known history event) :
    client.Runs (client.admitReceived peer responseId event) history := by
  unfold admitReceived
  refine Thread.Safe.bind conforms_eventIsAdmitted fun later admitted hlater hadmitted => ?_
  split
  · next htrue =>
    exact runs_handleEvent (fun hnone => (hpushed hnone).mono hlater) (hknown.mono hlater)
      (hadmitted htrue)
  · exact runs_pure

/-- Looking for a fresh subscription only reads. -/
theorem runs_freshResponse {peer : String} {subscriptionId : Option String}
    {event : VerifiedEvent nostr} {isSubscribed : Bool} :
    client.Runs (client.freshResponse peer subscriptionId event isSubscribed) history := by
  unfold freshResponse
  split
  · exact runs_read
  · exact runs_pure

/-- A received event is known, whether it was asked for or pushed. -/
theorem runs_handleReceivedEvent {peer : String} {subscriptionId : Option String}
    {event : VerifiedEvent nostr}
    (hreceived : client.Received history peer (.event subscriptionId event)) :
    client.Runs (client.handleReceivedEvent peer subscriptionId event) history := by
  have hnone : ∀ later, history <+: later → ∀ freshId : Option String,
      freshId.or subscriptionId = none → client.Received later peer (.event none event) := by
    intro later hlater freshId hor
    -- a fresh response has a subscription, so one without was pushed
    obtain ⟨-, rfl⟩ := Option.or_eq_none_iff.mp hor
    exact hreceived.mono hlater
  unfold handleReceivedEvent
  split
  · next hpublication =>
    obtain ⟨rfl, -⟩ := hpublication
    exact runs_acceptPublication hreceived
  · -- an event that answers no subscription counts only where it was pushed
    refine runs_bind runs_read fun later isSubscribed hlater => ?_
    refine runs_bind runs_freshResponse fun last freshId hlast => ?_
    refine runs_bind (runs_untouched fun _ => ⟨rfl, rfl, rfl, rfl, rfl, rfl, rfl, rfl⟩)
      fun last' observation hlast' => ?_
    split
    · split
      · exact runs_recordProviderViolation
      · exact runs_pure
    · split
      · have hlater' := (hlater.trans hlast).trans hlast'
        exact runs_admitReceived (hnone last' hlater' freshId) (hreceived.known.mono hlater')
      · exact runs_pure

/-! ## Inventories -/

/-- The message that an inventory was read from. -/
abbrev InventoryAdvertisement.message (inventory : InventoryAdvertisement) :
    FipsPubsubWireMessage nostr :=
  .inv inventory.subscriptionIds inventory.eventId inventory.eventKind inventory.payloadBytes
    inventory.hopLimit

/-- An accepted inventory is answered with a request for its event. -/
theorem conforms_acceptInventory {peer : String} {inventory : InventoryAdvertisement}
    (hreceived : client.Received history peer (inventory.message : FipsPubsubWireMessage nostr)) :
    client.Conforms (fun _ result => ∀ frame, result = .ok (some frame) →
        @encode nostr client (.want inventory.eventId) = .ok frame)
      (client.acceptInventory peer inventory) history := by
  have hskip : ∀ later, client.Conforms (fun _ result => ∀ frame, result = .ok (some frame) →
        @encode nostr client (.want inventory.eventId) = .ok frame)
      (Pure.pure (.ok none) : ClientThread nostr (Except PubsubError (Option Frame))) later := by
    intro later
    refine Thread.Safe.pure fun _ _ frame hnone => ?_
    cases hnone
  unfold acceptInventory
  split
  · exact hskip _
  · refine Thread.Safe.bind runs_read fun later alreadySeen hlater _ => ?_
    refine Thread.Safe.bind runs_read fun later' candidates hlater' _ => ?_
    refine Thread.Safe.bind (runs_untouched fun _ => ⟨rfl, rfl, rfl, rfl, rfl, rfl, rfl, rfl⟩)
      fun last valid hlast _ => ?_
    split
    · next hvalid =>
      refine Thread.Safe.bind runs_nowMs fun last' requestedAtMs hlast' _ => ?_
      refine Thread.Safe.bind (runs_atomic fun last'' s hlast'' hs => hs.pend client.wantOrder
        (.insert (inventory.announcement peer valid requestedAtMs hvalid.1 hvalid.2)) ?_)
        fun _ requested _ _ => ?_
      · rintro _ ⟨⟩
        -- the request is recorded with the announcement in hand
        have hreceived' := hreceived.mono
          ((((hlater.trans hlater').trans hlast).trans hlast').trans hlast'')
        exact ⟨⟨_, _, _, _, _, hreceived', rfl⟩, ⟨_, _, _, _, _, _, hreceived', rfl, rfl⟩⟩
      · split
        · refine Thread.Safe.pure fun _ _ frame hsome => ?_
          cases hencode : @encode nostr client (.want inventory.eventId) with
          | error error =>
            rw [hencode] at hsome
            cases hsome
          | ok encoded =>
            rw [hencode] at hsome
            cases hsome
            rfl
        · exact hskip _
    · exact hskip _

/-- What is delivered under the keys of an INV matches their filters. -/
theorem Holds.deliverFreshLoop {s : ClientInner nostr} (hs : client.Holds history s) {peer : String}
    {event : VerifiedEvent nostr} (hknown : client.Known history event)
    (hadmitted : client.Admitted history event (.ofFipsEndpoint peer)) (keys lagged : List String) :
    client.Holds history (client.deliverFreshLoop peer event keys lagged s).2 := by
  induction keys generalizing s lagged with
  | nil => exact hs
  | cons key rest ih =>
    rw [ClientSetup.deliverFreshLoop]
    split
    · exact ih hs lagged
    · next active hactive =>
      split
      · next htaken =>
        -- the filters have to match although the subscription was named
        rw [Bool.and_eq_true, Bool.and_eq_true, takesFrom, Bool.and_eq_true] at htaken
        have hwants : client.wants active.filters event = true := htaken.1.2.2
        exact ih (hs.deliverLocal hactive hwants ⟨hknown, .inl hadmitted⟩).1 _
      · exact ih hs lagged

/-- An INV of a cached event delivers it under the subscriptions that had not seen it. -/
theorem runs_handleCachedInv {peer : String} {inventory : InventoryAdvertisement}
    {event : VerifiedEvent nostr} (hknown : client.Known history event) :
    client.Runs (client.handleCachedInv peer inventory event) history := by
  unfold handleCachedInv
  split
  · exact runs_pure
  · refine Thread.Safe.bind conforms_eventIsAdmitted fun later admitted hlater hadmitted => ?_
    split
    · next htrue =>
      refine runs_bind (runs_atomic fun last s hlast hs => ?_) fun _ lagged _ =>
        runs_each fun _ _ _ _ => runs_closeSubscription
      exact hs.deliverFreshLoop (hknown.mono (hlater.trans hlast)) ((hadmitted htrue).mono hlast) _ _
    · exact runs_pure

/-- A body that the cache has came in and was let pass. -/
theorem conforms_recentEvent {eventId : EventId} :
    client.Conforms (fun later result => ∀ event, result = some event →
        event.event.id = eventId ∧ client.Passed later event)
      (Thread.read fun s : ClientInner nostr => s.recentEvents.event eventId) history := by
  refine Thread.Safe.read fun _ s _ hs _ hlast event hevent => ?_
  obtain ⟨hid, cached, hcached, rfl⟩ := RecentEvents.exists_of_event_eq_some hevent
  exact ⟨hid, (hs.cached cached hcached).passed.mono hlast⟩

/-- The announcement was received, so that a WANT to its peer is justified. -/
theorem runs_handleInv {peer : String} {inventory : InventoryAdvertisement}
    (hreceived : client.Received history peer (inventory.message : FipsPubsubWireMessage nostr)) :
    client.Runs (client.handleInv peer inventory : ClientThread nostr Unit) history := by
  unfold handleInv
  split
  · exact runs_pure
  · refine Thread.Safe.bind conforms_recentEvent fun later event hlater hevent => ?_
    cases event with
    | some event => exact runs_handleCachedInv (hevent event rfl).2.1
    | none =>
      refine Thread.Safe.bind (conforms_acceptInventory (hreceived.mono hlater))
        fun last result hlast hresult => ?_
      split
      · next frame =>
        refine runs_bind (runs_sendFrame (hresult frame rfl) (.want ?_)) fun _ _ _ => runs_pure
        exact ⟨_, _, _, _, _, hreceived.mono (hlater.trans hlast), rfl⟩
      · exact runs_pure

/-! ## Requests for bodies, and receipts -/

/-- The subscriptions of a peer that match an event are ones that the peer asked for. -/
theorem Holds.asks_matchingSubscriptions {s : ClientInner nostr} (hs : client.Holds history s)
    {peer : String} {event : VerifiedEvent nostr} {subscription : PubsubPeerSubscription}
    (h : subscription ∈ matchingSubscriptions s.peerSubscriptions peer event) :
    client.Asks history peer subscription.subscriptionId event := by
  obtain ⟨hmem, hmatch⟩ := List.mem_filter.mp h
  cases hset : s.peerSubscriptions.peers.lookup peer with
  | none =>
    rw [hset] at hmem
    cases hmem
  | some set =>
    rw [hset] at hmem
    exact hs.asks ⟨set, hset, PeerSubscriptionSet.lists_of_mem_intoValues hmem⟩ hmatch

/-- The event for a request, and the subscription that it answers. -/
theorem conforms_eventForWant {peer : String} {eventId : EventId} :
    client.Conforms (fun later result => ∀ found, result = some found → found.2.event.id = eventId ∧
        client.Passed later found.2 ∧ client.Asks later peer found.1 found.2)
      (eventForWant peer eventId : ClientThread nostr _) history := by
  unfold eventForWant
  refine Thread.Safe.bind conforms_recentEvent fun later event _ hevent => ?_
  cases event with
  | none =>
    refine Thread.Safe.pure fun _ _ _ hnone => ?_
    cases hnone
  | some event =>
    obtain ⟨hid, hpassed⟩ := hevent event rfl
    refine Thread.Safe.read fun last s hlast hs last' hlast' found hfound => ?_
    obtain ⟨subscription, hhead, rfl⟩ := Option.map_eq_some_iff.mp hfound
    have hasks := hs.asks_matchingSubscriptions (List.mem_of_mem_head? hhead)
    exact ⟨hid, hpassed.mono (hlast.trans hlast'), hasks.mono hlast'⟩

/-- A WANT is answered from the cache, or queued for the store. -/
theorem runs_handleWant {peer : String} {eventId : EventId}
    (hreceived : client.Received history peer (.want eventId : FipsPubsubWireMessage nostr)) :
    client.Runs (client.handleWant peer eventId : ClientThread nostr Unit) history := by
  unfold handleWant
  refine Thread.Safe.bind conforms_eventForWant fun later found hlater hfound => ?_
  cases found with
  -- What is not in the cache may be in the store, so the WANT is queued as a replay.
  | none =>
    refine runs_bind (runs_queueReplay ?_) fun _ _ _ => runs_pure
    rintro _ ⟨⟩
    exact hreceived.mono hlater
  | some found =>
    obtain ⟨subscriptionId, event⟩ := found
    obtain ⟨rfl, hpassed, hasks⟩ := hfound _ rfl
    dsimp only
    split
    · exact runs_pure
    · next frame hencode =>
      exact runs_bind (runs_sendFrame hencode (.answer (hreceived.mono hlater) hasks hpassed))
        fun _ _ _ => runs_pure

/-- A receipt opens no publication and adds no provider. -/
theorem lookup_handlePublicationReceipt {peer : String} {eventId other : EventId} {accepted : Bool}
    {message : String} {pending : Publications} {publication : PendingPublication}
    (h : (handlePublicationReceipt peer eventId accepted message pending).2.lookup other =
      some publication) :
    ∃ old, pending.lookup other = some old ∧ publication.providers ⊆ old.providers := by
  unfold handlePublicationReceipt at h
  split at h
  · exact ⟨publication, h, subset_rfl⟩
  · next operation hlookup =>
    split at h
    · exact ⟨publication, h, subset_rfl⟩
    · dsimp only at h
      split at h
      · exact ⟨publication, (Finmap.lookup_erase_eq_some.mp h).2, subset_rfl⟩
      · rcases Finmap.lookup_insert_eq_some.mp h with ⟨rfl, rfl⟩ | ⟨-, hold⟩
        · exact ⟨operation, hlookup, Finset.erase_subset _ _⟩
        · exact ⟨publication, hold, subset_rfl⟩

/-- A receipt only settles a waiting publication. -/
theorem runs_handleReceipt {peer : String} {eventId : EventId} {accepted : Bool} {message : String} :
    client.Runs (handleReceipt peer eventId accepted message : ClientThread nostr Unit) history := by
  refine runs_modify fun later s _ hs => ?_
  refine { hs with published := fun other publication hlookup provider hprovider => ?_ }
  obtain ⟨old, hold, hsubset⟩ := lookup_handlePublicationReceipt hlookup
  exact hs.published other old hold provider (hsubset hprovider)

/-- Every message that a frame may decode to is handled within the contract. -/
theorem runs_handleFrame {peer : String} {frame : Frame}
    (hreceived : ∀ message, @decode nostr client frame = .ok message →
      client.Received history peer message) :
    client.Runs (client.handleFrame peer frame : ClientThread nostr Unit) history := by
  unfold handleFrame
  split
  · exact runs_recordProviderViolation
  · exact runs_handleReceipt
  · next hdecode => exact runs_handleReq (hreceived _ hdecode)
  · exact runs_modify fun _ s _ hs =>
      hs.unask fun _ _ => PubsubPeerSubscriptionStore.lists_of_remove
  · next hdecode => exact runs_handleReceivedEvent (hreceived _ hdecode)
  · next hdecode => exact runs_handleInv (hreceived _ hdecode)
  · next hdecode => exact runs_handleWant (hreceived _ hdecode)

end NostrPubsub.Fips.ClientSetup
