import NostrPubsub.Mesh.Evidence

/-!
# Truthful announcers

The first inventory of an event fixes the kind and the size that the mesh expects of it, before the
event is there to compare them with. A later inventory must repeat them. So a peer that announces an
event as it is gets an error, and an invalid message on its record, when another peer announced the
event falsely before it and the route of that announcement is still open.

`truthful_inventory_rejected_iff` says that this is the only way in which a peer that sends nothing
but truthful inventories is held to have sent an invalid message. Such a peer is asked for the event
unless the mesh does not need it from this peer.
-/

namespace NostrPubsub

/-! ## Canonical ids -/

theorem utf8ByteSize_ofList {chars : List Char} (h : ∀ c ∈ chars, c.utf8Size = 1) :
    (String.ofList chars).utf8ByteSize = chars.length := by
  induction chars with
  | nil => rfl
  | cons c rest ih =>
    obtain ⟨hc, hrest⟩ := List.forall_mem_cons.mp h
    rw [String.ofList_cons, String.utf8ByteSize_append, String.utf8ByteSize_singleton, hc, ih hrest,
      List.length_cons, Nat.add_comm]

theorem isDigit_or_le_hexDigit {n : ℕ} (hn : n < 16) :
    (hexDigit n).utf8Size = 1 ∧
      ((hexDigit n).isDigit || ('a' ≤ hexDigit n && hexDigit n ≤ 'f')) = true := by
  have hall : ∀ i < 16, (hexDigit i).utf8Size = 1 ∧
      ((hexDigit i).isDigit || ('a' ≤ hexDigit i && hexDigit i ≤ 'f')) = true := by decide
  exact hall n hn

theorem exists_hexDigit_of_mem_hexByte {c : Char} {b : UInt8} (h : c ∈ hexByte b) :
    ∃ n < 16, c = hexDigit n := by
  have hb := b.toNat_lt
  rcases List.mem_pair.mp h with rfl | rfl
  · exact ⟨_, by omega, rfl⟩
  · exact ⟨_, by omega, rfl⟩

/-- The id of an event is written as `validate_event_id` wants it. -/
theorem validateEventId_toHex (id : EventId) : validateEventId id.toHex = .ok () := by
  have hdigits : ∀ c ∈ id.toList.flatMap hexByte, ∃ n < 16, c = hexDigit n := by
    intro c hc
    obtain ⟨b, -, hc⟩ := List.mem_flatMap.mp hc
    exact exists_hexDigit_of_mem_hexByte hc
  have hlength : (id.toList.flatMap hexByte).length = 64 := by
    simp [List.length_flatMap, hexByte]
  have hsize : id.toHex.utf8ByteSize = 64 := by
    rw [EventId.toHex, utf8ByteSize_ofList, hlength]
    intro c hc
    obtain ⟨n, hn, rfl⟩ := hdigits c hc
    exact (isDigit_or_le_hexDigit hn).1
  refine if_pos ⟨hsize, ?_⟩
  rw [EventId.toHex, String.toList_ofList, List.all_eq_true]
  intro c hc
  obtain ⟨n, hn, rfl⟩ := hdigits c hc
  exact (isDigit_or_le_hexDigit hn).2

/-! ## One inventory -/

namespace InvWantMesh

/-- The mesh waits for the event, and expects another kind or size of it. -/
def Disputes (m : InvWantMesh) (eventId : String) (eventKind payloadBytes nowMs : ℕ) : Prop :=
  eventId ∉ m.cachedEvents ∧ m.isSeen eventId nowMs = true ∧
    ∃ route, m.upstreamRoutes.lookup eventId = some route ∧ route.fulfilled = false ∧
      (route.eventKind ≠ eventKind ∨ route.payloadBytes ≠ payloadBytes)

/-- The mesh does not need the event from the peer: it has the event, it was announced here without a
route, its route is fulfilled, or there is no room for another provider. -/
def Dispenses (m : InvWantMesh) (peer eventId : String) (nowMs : ℕ) : Prop :=
  eventId ∈ m.cachedEvents ∨
    m.isSeen eventId nowMs = true ∧ m.upstreamRoutes.lookup eventId = none ∨
    ∃ route, m.upstreamRoutes.lookup eventId = some route ∧
      (route.fulfilled = true ∨
        peer ∉ route.providers ∧ maxUpstreamProvidersPerEvent ≤ route.alternatePeers.card + 1)

variable {nostr : NostrCrate} {m : InvWantMesh} {peer : String} {event : Event}
  {payloadBytes hopLimit nowMs : ℕ}

/-- The checks that come first find nothing to reject in a truthful inventory. -/
theorem receiveInventory_of_admissible (hevent : Admissible nostr m.options event payloadBytes)
    (hmax : hopLimit ≤ m.options.maxHops) :
    m.receiveInventory peer event.id.toHex event.kind payloadBytes hopLimit nowMs =
      if hopLimit = 0 ∨ event.id.toHex ∈ m.cachedEvents then (.ok [], m)
      else if m.isSeen event.id.toHex nowMs = true then
        m.extendRoute peer event.id.toHex event.kind payloadBytes hopLimit nowMs
      else (.ok [.send peer (.want event.id.toHex)],
        ((m.rememberInventory event.id.toHex nowMs).2.openRoute peer event.id.toHex event.kind
          payloadBytes hopLimit nowMs).2) := by
  obtain ⟨-, hkind, _, -, -, hbytes⟩ := validateVerifiedEvent_eq_ok hevent.2
  have hlen : m.options.validateEventLen payloadBytes = .ok () := if_neg (Nat.not_lt.mpr hbytes)
  unfold receiveInventory
  simp only [validateEventId_toHex, hkind, hlen, if_neg (Nat.not_lt.mpr hmax)]
  simp only [bind, Except.bind]
  by_cases hzero : hopLimit = 0
  · rw [if_pos hzero, if_pos (Or.inl hzero)]
  rw [if_neg hzero]
  by_cases hcached : event.id.toHex ∈ m.cachedEvents
  · rw [if_pos hcached, if_pos (Or.inr hcached)]
  rw [if_neg hcached, if_neg (not_or.mpr ⟨hzero, hcached⟩)]
  cases hseen : m.isSeen event.id.toHex nowMs with
  | true =>
    rw [rememberInventory_of_seen hseen]
    rfl
  | false =>
    have hsplit : m.rememberInventory event.id.toHex nowMs =
        (true, (m.rememberInventory event.id.toHex nowMs).2) :=
      Prod.ext (rememberInventory_of_not_seen hseen).1 rfl
    rw [hsplit]
    rfl

/-- An inventory for a seen id that repeats the kind and the size is answered. -/
theorem extendRoute_of_undisputed {eventId : String} {eventKind : ℕ}
    (hseen : m.isSeen eventId nowMs = true) (hcached : eventId ∉ m.cachedEvents)
    (h : ¬m.Disputes eventId eventKind payloadBytes nowMs) :
    ∃ actions,
      (m.extendRoute peer eventId eventKind payloadBytes hopLimit nowMs).1 = .ok actions ∧
        (.send peer (.want eventId) ∈ actions ∨ m.Dispenses peer eventId nowMs) := by
  unfold extendRoute
  cases hroute : m.upstreamRoutes.lookup eventId with
  | none => exact ⟨[], rfl, Or.inr (Or.inr (Or.inl ⟨hseen, hroute⟩))⟩
  | some route =>
    by_cases hopen : route.fulfilled = true
    · refine ⟨[], by simp [hopen], Or.inr (Or.inr (Or.inr ⟨route, hroute, Or.inl hopen⟩))⟩
    have hsame : ¬(route.eventKind ≠ eventKind ∨ route.payloadBytes ≠ payloadBytes) := fun hother =>
      h ⟨hcached, hseen, route, hroute, Bool.eq_false_of_not_eq_true hopen, hother⟩
    simp only [if_neg hopen, if_neg hsame]
    split
    · exact ⟨_, rfl, Or.inl (List.mem_singleton.mpr rfl)⟩
    next hknown =>
    split
    · next hfull =>
      have hunknown : peer ∉ route.providers :=
        fun hmem => hknown (UpstreamRoute.hasProvider_iff.mpr hmem)
      exact ⟨_, rfl, Or.inr (Or.inr (Or.inr ⟨route, hroute, Or.inr ⟨hunknown, hfull⟩⟩))⟩
    · exact ⟨_, rfl, Or.inl (List.mem_singleton.mpr rfl)⟩

theorem receiveInventory_of_undisputed (hevent : Admissible nostr m.options event payloadBytes)
    (hmax : hopLimit ≤ m.options.maxHops)
    (h : 0 < hopLimit → ¬m.Disputes event.id.toHex event.kind payloadBytes nowMs) :
    ∃ actions,
      (m.receiveInventory peer event.id.toHex event.kind payloadBytes hopLimit nowMs).1 =
          .ok actions ∧
        (0 < hopLimit → .send peer (.want event.id.toHex) ∈ actions ∨
          m.Dispenses peer event.id.toHex nowMs) := by
  rw [receiveInventory_of_admissible hevent hmax]
  split
  · next hsilent =>
    refine ⟨[], rfl, fun hhops => ?_⟩
    rcases hsilent with hzero | hcached
    · exact absurd hzero hhops.ne'
    · exact Or.inr (Or.inl hcached)
  next hasked =>
  obtain ⟨hzero, hcached⟩ := not_or.mp hasked
  split
  · next hseen =>
    obtain ⟨actions, hactions, hwant⟩ :=
      extendRoute_of_undisputed hseen hcached (h (Nat.pos_of_ne_zero hzero))
    exact ⟨actions, hactions, fun _ => hwant⟩
  · exact ⟨_, rfl, fun _ => Or.inl (List.mem_singleton.mpr rfl)⟩

theorem receiveInventory_of_disputed (hevent : Admissible nostr m.options event payloadBytes)
    (hmax : hopLimit ≤ m.options.maxHops) (hhops : 0 < hopLimit)
    (h : m.Disputes event.id.toHex event.kind payloadBytes nowMs) :
    (m.receiveInventory peer event.id.toHex event.kind payloadBytes hopLimit nowMs).1 =
      .error (.validation "retried inv/want inventory changed kind or size") := by
  obtain ⟨hcached, hseen, route, hroute, hopen, hother⟩ := h
  rw [receiveInventory_of_admissible hevent hmax, if_neg (not_or.mpr ⟨hhops.ne', hcached⟩),
    if_pos hseen]
  unfold extendRoute
  rw [hroute]
  simp only [hopen, if_pos hother]
  rfl

/-! ## The record of a peer -/

/-- No invalid message is on record against the peer. -/
def Unblamed (m : InvWantMesh) (peer : String) : Prop :=
  ∀ behavior, m.peerBehaviors.lookup peer = some behavior → behavior.invalidMessages = 0

theorem Unblamed.of_behaviors {m' : InvWantMesh} (h : m.Unblamed peer)
    (heq : m'.behaviors = m.behaviors) : m'.Unblamed peer := by
  have htable : m'.peerBehaviors = m.peerBehaviors := congrArg Prod.snd heq
  intro behavior hbehavior
  rw [htable] at hbehavior
  exact h behavior hbehavior

/-- What is on record after an eviction was on record before. -/
theorem Unblamed.evicted (h : m.Unblamed peer) (other : String) {behavior : PeerBehavior}
    (hbehavior : (if other ∈ m.peerBehaviors then (m.peerBehaviorOrder, m.peerBehaviors)
      else
        let (order, behaviors) :=
          evictOldest maxTrackedPeerBehaviors m.peerBehaviorOrder m.peerBehaviors
        (order ++ [other], behaviors)).2.lookup peer = some behavior) :
    behavior.invalidMessages = 0 := by
  split at hbehavior
  · exact h behavior hbehavior
  · exact h behavior (lookup_evictOldest hbehavior)

/-- A new record has no invalid message before its first evidence. -/
theorem Unblamed.recordPeerBehavior (h : m.Unblamed peer) {other : String} {delta : ℤ}
    {evidence : PeerBehaviorEvidence}
    (hother : other = peer → evidence ≠ .invalidMessage) :
    (m.recordPeerBehavior other delta evidence).Unblamed peer := by
  intro behavior hbehavior
  rcases Finmap.lookup_insert_eq_some.mp hbehavior with ⟨rfl, rfl⟩ | ⟨_, hold⟩
  · have hzero : ∀ old : Option PeerBehavior,
        (∀ found, old = some found → found.invalidMessages = 0) →
        (old.getD {}).invalidMessages = 0 := by
      rintro (_ | found) hfound
      · rfl
      · exact hfound found rfl
    cases evidence with
    | validFrame => exact hzero _ fun _ => h.evicted _
    | invalidMessage => exact absurd rfl (hother rfl)
    | unservedInventory => exact hzero _ fun _ => h.evicted _
  · exact h.evicted other hold

theorem Unblamed.foldl {evidence : List Evidence} (h : m.Unblamed peer)
    (hnone : .invalidMessage peer ∉ evidence) :
    (evidence.foldl recordEvidence m).Unblamed peer := by
  induction evidence generalizing m with
  | nil => exact h
  | cons e rest ih =>
    obtain ⟨hfirst, hrest⟩ := not_or.mp (mt List.mem_cons.mpr hnone)
    refine ih ?_ hrest
    cases e with
    | validFrame other eventId => exact h.recordPeerBehavior fun _ => nofun
    | invalidMessage other =>
      refine h.recordPeerBehavior fun hsame => ?_
      rw [hsame] at hfirst
      exact absurd rfl hfirst
    | unservedInventory other eventId => exact h.recordPeerBehavior fun _ => nofun

theorem Unblamed.phase (h : m.Unblamed peer) {p : Phase nostr}
    (hnone : .invalidMessage peer ∉ p.evidence m) : (p.run m).2.Unblamed peer :=
  (h.foldl hnone).of_behaviors (p.behaviors_run m)

end InvWantMesh

/-! ## Runs -/

/-- The inventory of an admissible event, with its kind and its size, and with a hop limit that the
mesh accepts. -/
def TruthfulInventory (nostr : NostrCrate) (options : InvWantMeshOptions)
    (message : InvWantWireMessage) : Prop :=
  ∃ event payloadBytes hopLimit, Admissible nostr options event payloadBytes ∧
    hopLimit ≤ options.maxHops ∧
    message = .inventory event.id.toHex event.kind payloadBytes hopLimit

/-- What the call hands over from the peer is a truthful inventory, and the call does not report that
the peer sent something that is no message. -/
def Op.TruthfulFrom {nostr : NostrCrate} (options : InvWantMeshOptions) (peer : String) :
    Op nostr → Prop
  | .receive sourcePeer message _ _ => sourcePeer = peer → TruthfulInventory nostr options message
  | .receiveVerifiedFrame sourcePeer _ _ _ _ => sourcePeer ≠ peer
  | .recordInvalidMessage peerId => peerId ≠ peer
  | _ => True

/-- The call is an inventory of the peer that the mesh disputes. -/
def Step.DisputedFrom {nostr : NostrCrate} (m : InvWantMesh) (peer : String) (s : Step nostr) :
    Prop :=
  ∃ eventId eventKind payloadBytes hopLimit peers nowMs,
    s.op = .receive peer (.inventory eventId eventKind payloadBytes hopLimit) peers nowMs ∧
      0 < hopLimit ∧ (m.prune s.order nowMs).Disputes eventId eventKind payloadBytes nowMs

namespace InvWantMesh

variable {nostr : NostrCrate} {m : InvWantMesh} {peer : String}

theorem fst_recordRejection (sourcePeer : String)
    (result : Except PubsubError (List InvWantAction) × InvWantMesh) :
    (recordRejection sourcePeer result).1 = result.1 := by
  obtain ⟨error | actions, after⟩ := result
  · rfl
  · rfl

theorem invalidMessage_notMem_rejectionEvidence {sourcePeer : String}
    {result : Except PubsubError (List InvWantAction)}
    (h : sourcePeer = peer → ∃ actions, result = .ok actions) :
    .invalidMessage peer ∉ rejectionEvidence sourcePeer result := by
  intro hmem
  cases result with
  | error error =>
    have hsame := List.mem_singleton.mp hmem
    cases hsame
    obtain ⟨_, hok⟩ := h rfl
    cases hok
  | ok actions => cases hmem

theorem invalidMessage_notMem_frameEvidence {sourcePeer eventId : String} {event : Event}
    {verifySignature : Bool} (h : sourcePeer ≠ peer) :
    .invalidMessage peer ∉ m.frameEvidence nostr sourcePeer eventId event verifySignature := by
  intro hmem
  unfold frameEvidence at hmem
  split at hmem
  · cases List.mem_singleton.mp hmem
    exact h rfl
  · split at hmem
    · cases hmem
    · cases List.mem_singleton.mp hmem

theorem invalidMessage_notMem_pruneEvidence {order : RouteOrder} {nowMs : ℕ} :
    .invalidMessage peer ∉ m.pruneEvidence order nowMs := by
  intro hmem
  unfold pruneEvidence at hmem
  split at hmem
  · cases hmem
  · obtain ⟨entry, -, hmem⟩ := List.mem_flatMap.mp hmem
    obtain ⟨_, -, heq⟩ := List.mem_map.mp hmem
    cases heq

/-- A call with nothing but a truthful inventory from the peer records nothing invalid against it,
unless the inventory is disputed. -/
theorem invalidMessage_notMem_evidence {op : Op nostr}
    (htruthful : op.TruthfulFrom m.options peer)
    (hfair : ∀ eventId eventKind payloadBytes hopLimit peers nowMs,
      op = .receive peer (.inventory eventId eventKind payloadBytes hopLimit) peers nowMs →
        0 < hopLimit → ¬m.Disputes eventId eventKind payloadBytes nowMs) :
    .invalidMessage peer ∉ op.evidence m := by
  cases op with
  | receive sourcePeer message peers nowMs =>
    cases message with
    | inventory eventId eventKind payloadBytes hopLimit =>
      refine invalidMessage_notMem_rejectionEvidence ?_
      rintro rfl
      obtain ⟨event, size, hops, hevent, hmax, heq⟩ := htruthful rfl
      cases heq
      obtain ⟨actions, hactions, -⟩ :=
        receiveInventory_of_undisputed hevent hmax (hfair _ _ _ _ _ _ rfl)
      exact ⟨actions, hactions⟩
    | want eventId =>
      refine invalidMessage_notMem_rejectionEvidence fun hsame => ?_
      obtain ⟨_, _, _, _, _, heq⟩ := htruthful hsame
      cases heq
    | frame eventId event =>
      refine invalidMessage_notMem_frameEvidence fun hsame => ?_
      obtain ⟨_, _, _, _, _, heq⟩ := htruthful hsame
      cases heq
  | receiveVerifiedFrame sourcePeer eventId verified peers nowMs =>
    exact invalidMessage_notMem_frameEvidence htruthful
  | recordInvalidMessage peerId =>
    intro hmem
    cases List.mem_singleton.mp hmem
    exact htruthful rfl
  | _ => exact List.not_mem_nil

/-- A step with nothing but a truthful inventory from the peer leaves its record clean, unless the
inventory is disputed. -/
theorem Unblamed.step (h : m.Unblamed peer) {s : Step nostr}
    (htruthful : s.op.TruthfulFrom m.options peer) (hfair : ¬s.DisputedFrom m peer) :
    (s.run m).2.Unblamed peer := by
  have hpruned : (s.op.pruned (prune s.order) m).Unblamed peer := by
    unfold Op.pruned
    split
    · next nowMs _ =>
      exact h.phase (p := (.prune s.order nowMs : Phase nostr)) invalidMessage_notMem_pruneEvidence
    · exact h
  have hoptions : (s.op.pruned (prune s.order) m).options = m.options := by
    unfold Op.pruned
    split
    · exact m.prune_options _ _
    · rfl
  have hcall : Phase.run (.call s.op) (s.op.pruned (prune s.order) m) = s.run m :=
    Op.apply_pruned (prune s.order) m s.op
  rw [← hcall]
  refine hpruned.phase (invalidMessage_notMem_evidence (by rwa [hoptions]) ?_)
  intro eventId eventKind payloadBytes hopLimit peers nowMs hop hhops hdisputed
  rw [hop] at hdisputed
  exact hfair ⟨eventId, eventKind, payloadBytes, hopLimit, peers, nowMs, hop, hhops, hdisputed⟩

end InvWantMesh

section Runs

variable {nostr : NostrCrate} {options : InvWantMeshOptions} {peer : String}

/-- A peer that sends nothing but truthful inventories, none of which is disputed, keeps a clean
record. -/
theorem unblamed_meshAfter {steps : List (Step nostr)}
    (htruthful : ∀ s ∈ steps, s.op.TruthfulFrom options.normalize peer)
    (hfair : ∀ before s after, steps = before ++ s :: after →
      ¬s.DisputedFrom (meshAfter options before) peer) :
    (meshAfter options steps).Unblamed peer := by
  induction steps using List.reverseRecOn with
  | nil =>
    intro behavior hbehavior
    cases hbehavior
  | append_singleton steps next ih =>
    have hbefore : (meshAfter options steps).Unblamed peer := by
      refine ih (fun s hs => htruthful s (List.mem_append_left _ hs)) ?_
      intro before s after hsplit
      refine hfair before s (after ++ [next]) ?_
      rw [hsplit, List.append_assoc, List.cons_append]
    rw [meshAfter_concat]
    refine hbefore.step ?_ (hfair steps next [] rfl)
    rw [meshAfter_options]
    exact htruthful next (List.mem_append_right _ (List.mem_singleton.mpr rfl))

end Runs

/-- A peer that sends nothing but truthful inventories. An inventory of the peer is rejected exactly
if the route of its event is open with another kind or size; otherwise the peer is asked for the
event, unless the mesh does not need it from this peer. When no inventory of the peer meets such a
route, no invalid message is recorded against it. -/
theorem truthful_inventory_rejected_iff {nostr : NostrCrate} (options : InvWantMeshOptions)
    (peer : String) (steps : List (Step nostr))
    (htruthful : ∀ s ∈ steps, s.op.TruthfulFrom options.normalize peer) :
    (∀ before order after eventId eventKind payloadBytes hopLimit peers nowMs,
      steps = before ++ ⟨.receive peer (.inventory eventId eventKind payloadBytes hopLimit) peers
        nowMs, order⟩ :: after →
      let pruned := (meshAfter options before).prune order nowMs
      let result := ((meshAfter options before).receive (InvWantMesh.prune order) nostr peer
        (.inventory eventId eventKind payloadBytes hopLimit) peers nowMs).1
      ((∃ error, result = .error error) ↔
        0 < hopLimit ∧ pruned.Disputes eventId eventKind payloadBytes nowMs) ∧
      ∀ actions, result = .ok actions → 0 < hopLimit →
        .send peer (.want eventId) ∈ actions ∨ pruned.Dispenses peer eventId nowMs) ∧
    ((∀ before s after, steps = before ++ s :: after →
        ¬s.DisputedFrom (meshAfter options before) peer) →
      ∀ behavior, (meshAfter options steps).peerBehaviors.lookup peer = some behavior →
        behavior.invalidMessages = 0) := by
  refine ⟨?_, fun hfair => unblamed_meshAfter htruthful hfair⟩
  intro before order after eventId eventKind payloadBytes hopLimit peers nowMs hsplit pruned result
  have hoptions : pruned.options = options.normalize := by
    rw [InvWantMesh.prune_options, meshAfter_options]
  have hmem : ⟨.receive peer (.inventory eventId eventKind payloadBytes hopLimit) peers nowMs,
      order⟩ ∈ steps := by
    rw [hsplit]
    exact List.mem_append_right _ List.mem_cons_self
  -- A truthful inventory describes an admissible event, so only the route of the event can dispute
  -- it.
  obtain ⟨event, size, hops, hevent, hmax, heq⟩ := htruthful _ hmem rfl
  cases heq
  rw [← hoptions] at hevent hmax
  have hresult : result = (pruned.receiveInventory peer event.id.toHex event.kind payloadBytes
      hopLimit nowMs).1 := InvWantMesh.fst_recordRejection _ _
  by_cases hdisputed : 0 < hopLimit ∧
      pruned.Disputes event.id.toHex event.kind payloadBytes nowMs
  · rw [hresult, InvWantMesh.receiveInventory_of_disputed hevent hmax hdisputed.1 hdisputed.2]
    exact ⟨⟨fun _ => hdisputed, fun _ => ⟨_, rfl⟩⟩, nofun⟩
  · obtain ⟨actions, hactions, hasked⟩ :=
      @InvWantMesh.receiveInventory_of_undisputed nostr pruned peer event payloadBytes hopLimit nowMs
        hevent hmax fun hhops hdispute => hdisputed ⟨hhops, hdispute⟩
    rw [hresult, hactions]
    refine ⟨⟨nofun, fun h => absurd h hdisputed⟩, ?_⟩
    intro returned hreturned hhops
    cases hreturned
    exact hasked hhops

/-- Peer `x` announces a note with a size that is not its own. -/
def noteMisannounced : Step noteCrate :=
  .ascending (.receive "x" (.inventory noteA.id.toHex noteA.kind 335 4) [] 10)

theorem truthfulFrom_noteAnnounced (options : InvWantMeshOptions) (nowMs : ℕ)
    (h : options.validateVerifiedEvent noteCrate noteA =
      .ok (noteA.id.toHex, noteA.plainJson.length)) (hmax : 4 ≤ options.maxHops) :
    (noteAnnounced nowMs).op.TruthfulFrom options "p" :=
  fun _ => ⟨noteA, noteA.plainJson.length, 4, ⟨by decide +kernel, h⟩, hmax, rfl⟩

/-- `p` is the first to announce the note and is asked for it; nothing is recorded against it. -/
theorem truthful_inventory_rejected_iff_noteAnnounced :
    (∀ behavior, (meshAfter {} [noteAnnounced 20]).peerBehaviors.lookup "p" = some behavior →
      behavior.invalidMessages = 0) ∧
    (.send "p" (.want noteA.id.toHex) ∈ [InvWantAction.send "p" (.want noteA.id.toHex)] ∨
      ((InvWantMesh.new {}).prune (.ascending _) 20).Dispenses "p" noteA.id.toHex 20) := by
  have htruthful : ∀ s ∈ [noteAnnounced 20],
      s.op.TruthfulFrom ({} : InvWantMeshOptions).normalize "p" := by
    intro s hs
    rw [List.mem_singleton.mp hs]
    exact truthfulFrom_noteAnnounced _ 20 (by decide +kernel) (by decide)
  obtain ⟨hanswers, hrecord⟩ :=
    truthful_inventory_rejected_iff {} "p" [noteAnnounced 20] htruthful
  refine ⟨hrecord ?_, ?_⟩
  · rintro before s after hsplit ⟨eventId, eventKind, payloadBytes, hopLimit, peers, nowMs, -, -,
      -, hseen, -⟩
    -- the only step of the run is taken on a mesh that has seen nothing
    have hbefore : before = [] := by
      cases before with
      | nil => rfl
      | cons first rest => simp at hsplit
    subst hbefore
    have hpruned : (meshAfter {} ([] : List (Step noteCrate))).prune s.order nowMs =
        InvWantMesh.new {} := if_pos (WithTop.coe_lt_top nowMs)
    rw [hpruned] at hseen
    cases hseen
  · exact (hanswers [] (.ascending _) [] noteA.id.toHex noteA.kind noteA.plainJson.length 4 [] 20
      rfl).2 _ (by decide +kernel) (by decide)

/-- The mesh publishes two notes. -/
def notesPublished : List (Step noteCrate) :=
  [.ascending (.publish noteA [] 5), .ascending (.publish noteB [] 6)]

/-- `p` announces the note as it is, after `x` announced another size: `p` gets an error and an
invalid message on its record. And `p` is not asked for a note that the mesh published and has no
longer in its cache, although there is no route for it. -/
theorem truthful_peer_framed :
    ((∀ s ∈ [noteMisannounced, noteAnnounced 20],
        s.op.TruthfulFrom ({} : InvWantMeshOptions).normalize "p") ∧
      ((meshAfter {} [noteMisannounced]).receive (InvWantMesh.prune (.ascending _)) noteCrate "p"
        (noteInventory noteA) [] 20).1 =
          .error (.validation "retried inv/want inventory changed kind or size") ∧
      ((meshAfter {} [noteMisannounced, noteAnnounced 20]).peerBehaviors.lookup "p").map
        PeerBehavior.invalidMessages = some 1) ∧
    ((meshAfter { maxCachedEvents := 1 } notesPublished).receive (InvWantMesh.prune (.ascending _))
        noteCrate "p" (noteInventory noteA) [] 20).1 = .ok [] ∧
      noteA.id.toHex ∉
        ((meshAfter { maxCachedEvents := 1 } notesPublished).prune (.ascending _) 20).cachedEvents ∧
      ((meshAfter { maxCachedEvents := 1 } notesPublished).prune (.ascending _)
        20).upstreamRoutes.lookup noteA.id.toHex = none := by
  refine ⟨⟨?_, by decide +kernel, by decide +kernel⟩, by decide +kernel, by decide +kernel,
    by decide +kernel⟩
  intro s hs
  rcases List.mem_pair.mp hs with rfl | rfl
  · intro hsame
    exact absurd hsame (by decide)
  · exact truthfulFrom_noteAnnounced _ 20 (by decide +kernel) (by decide)

end NostrPubsub
