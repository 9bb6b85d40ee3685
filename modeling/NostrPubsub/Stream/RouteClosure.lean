import NostrPubsub.Mesh.Closing
import NostrPubsub.Stream.Faults
import NostrPubsub.Stream.Run

/-!
# A route is closed by its own event

Admission of a frame is split over two layers. A frame that the event policy lets through is
checked by the mesh against the signed id, the announced kind and the announced size. A frame
that the policy drops or fails on is dismissed under the id that the peer put in it: the route
of that id is closed without any of these checks, and nothing is held against the sender.

The mesh also takes a peer for a provider as soon as it has booked the want for it, and the stream
may not return that want: the call may fail at a later record, and the frame may come in the call of
the inventory.

So a route is closed by its own event, from a peer that was asked for it, as long as every frame that
the policy refuses carries the event it names, as it was announced, no call that asks a peer fails, and
nobody sends a frame in the call that makes it a provider (`AllCareful`).
-/

namespace NostrPubsub

/-- The event has the kind and the serialized size that the route was announced with. -/
def UpstreamRoute.announces (route : UpstreamRoute) (nostr : NostrCrate) (event : Event) : Bool :=
  route.eventKind == event.kind
    && (nostr.toJson event).toOption.map List.length == some route.payloadBytes

variable {nostr : NostrCrate} {σ : Type}

/-- Sender, claimed id and event of a frame with a valid signature. -/
def Handled.carries : Handled nostr → Option (String × String × VerifiedEvent nostr)
  | .refused sourcePeer eventId verified => some (sourcePeer, eventId, verified)
  | .admitted sourcePeer eventId verified _ _ => some (sourcePeer, eventId, verified)
  | _ => none

/-- A frame that the event policy refuses names the event it carries; from a provider of the
open route of that id, the event is as announced. -/
def RefusesOwn (m : InvWantMesh) : Handled nostr → Prop
  | .refused sourcePeer eventId verified =>
    verified.event.id.toHex = eventId ∧
      ∀ route ∈ m.upstreamRoutes.lookup eventId, route.fulfilled = false →
        sourcePeer ∈ route.providers → route.announces nostr verified.event = true
  | _ => True

instance (m : InvWantMesh) (handled : Handled nostr) : Decidable (RefusesOwn m handled) :=
  match handled with
  | .refused sourcePeer eventId verified =>
    inferInstanceAs (Decidable (verified.event.id.toHex = eventId ∧
      ∀ route ∈ m.upstreamRoutes.lookup eventId, route.fulfilled = false →
        sourcePeer ∈ route.providers → route.announces nostr verified.event = true))
  | .undecodable _ => inferInstanceAs (Decidable True)
  | .inventory _ _ _ _ _ _ _ => inferInstanceAs (Decidable True)
  | .want _ _ _ _ => inferInstanceAs (Decidable True)
  | .unverified _ _ _ => inferInstanceAs (Decidable True)
  | .admitted _ _ _ _ _ => inferInstanceAs (Decidable True)
  | .published _ _ _ => inferInstanceAs (Decidable True)
  | .replayed _ _ => inferInstanceAs (Decidable True)
  | .seeded _ _ => inferInstanceAs (Decidable True)
  | .maintained _ => inferInstanceAs (Decidable True)

/-- Every refused frame of a run does. -/
def RefusesOnlyOwn : InvWantMesh → List (HandledStep nostr) → Prop
  | _, [] => True
  | m, item :: items =>
    RefusesOwn m item.handled ∧ RefusesOnlyOwn (item.meshStep.run m).2 items

instance decidableRefusesOnlyOwn : ∀ (m : InvWantMesh) (items : List (HandledStep nostr)),
    Decidable (RefusesOnlyOwn m items)
  | _, [] => inferInstanceAs (Decidable True)
  | m, item :: items =>
    have := decidableRefusesOnlyOwn (item.meshStep.run m).2 items
    inferInstanceAs (Decidable (RefusesOwn m item.handled ∧
      RefusesOnlyOwn (item.meshStep.run m).2 items))

/-! ## What the caller gets -/

section Returned

variable {config : StreamConfig nostr σ}

/-- The actions that a call returns. A call that fails returns none. -/
def StreamCall.returned (order : RouteOrder) (s : FipsInvWantStream config) :
    StreamCall nostr → List (FipsInvWantStreamAction nostr)
  | .receiveBytes sourcePeer bytes connectedPeers nowMs =>
    (s.receiveBytes order sourcePeer bytes connectedPeers nowMs).1.toOption.getD []
  | .publish verified connectedPeers nowMs =>
    (s.publish order verified connectedPeers nowMs).1.toOption.getD []
  | .peerConnected peerId nowMs => (s.peerConnected order peerId nowMs).1.toOption.getD []
  | .disconnectPeer _ => []
  | .seed _ _ => []
  | .maintain _ => []

/-- What a run returns. -/
def StreamStep.returnedFrom : FipsInvWantStream config → List (StreamStep nostr) →
    List (FipsInvWantStreamAction nostr)
  | _, [] => []
  | s, step :: steps => step.call.returned step.order s ++ returnedFrom (step.run s) steps

/-- A want for the event was sent to the peer: the run returned its record. -/
def WantSent (config : StreamConfig nostr σ) (policies : σ) (steps : List (StreamStep nostr))
    (peer eventId : String) : Prop :=
  ∃ bytes, FipsInvWantStream.encodeAction config none (.send peer (.want eventId))
      = .ok (.send peer bytes) ∧
    .send peer bytes ∈ StreamStep.returnedFrom (.new config policies) steps

/-- The messages with which the mesh answers what is handled, one after the other. -/
def answersFrom : InvWantMesh → List (HandledStep nostr) → List InvWantAction
  | _, [] => []
  | m, item :: items =>
    item.handled.answer item.order m ++ answersFrom (item.meshStep.run m).2 items

/-- A peer is asked for an event. -/
def asks (actions : List InvWantAction) : Bool :=
  actions.any fun action => match action with
    | .send _ (.want _) => true
    | _ => false

/-- The peer provides the event. -/
def InvWantMesh.isProvider (m : InvWantMesh) (peer eventId : String) : Bool :=
  (m.upstreamRoutes.lookup eventId).any fun route => route.hasProvider peer

/-- A frame for an open route comes from a peer that provided it in the mesh before the call. -/
def ProvidedBefore (start : InvWantMesh) : InvWantMesh → List (HandledStep nostr) → Prop
  | _, [] => True
  | m, item :: items =>
    (∀ carried ∈ item.handled.carries, m.isFulfilled carried.2.1 = false →
      m.isProvider carried.1 carried.2.1 = true → start.isProvider carried.1 carried.2.1 = true) ∧
      ProvidedBefore start (item.meshStep.run m).2 items

instance decidableProvidedBefore (start : InvWantMesh) :
    ∀ (m : InvWantMesh) (items : List (HandledStep nostr)), Decidable (ProvidedBefore start m items)
  | _, [] => inferInstanceAs (Decidable True)
  | m, item :: items =>
    have := decidableProvidedBefore start (item.meshStep.run m).2 items
    inferInstanceAs (Decidable ((∀ carried ∈ item.handled.carries,
      m.isFulfilled carried.2.1 = false → m.isProvider carried.1 carried.2.1 = true →
        start.isProvider carried.1 carried.2.1 = true) ∧
      ProvidedBefore start (item.meshStep.run m).2 items))

/-- Nothing makes a call of `receive_bytes` fail. -/
def StreamCall.isHandled (order : RouteOrder) (s : FipsInvWantStream config) :
    StreamCall nostr → Bool
  | .receiveBytes sourcePeer bytes connectedPeers nowMs =>
    s.handlesBytes order sourcePeer bytes connectedPeers nowMs
  | _ => true

/-- A call closes routes through their own events only, with its frames from peers that were asked: the
refused frames carry what they name, nothing makes the call fail if it asks a peer, and nobody sends a
frame in the call that makes it a provider. -/
structure StreamStep.Careful (step : StreamStep nostr) (s : FipsInvWantStream config) : Prop where
  refuses : RefusesOnlyOwn s.mesh (step.handled s)
  returns : asks (answersFrom s.mesh (step.handled s)) = true →
    step.call.isHandled step.order s = true
  provided : ProvidedBefore s.mesh s.mesh (step.handled s)

instance (step : StreamStep nostr) (s : FipsInvWantStream config) : Decidable (step.Careful s) :=
  decidable_of_iff (RefusesOnlyOwn s.mesh (step.handled s) ∧
    (asks (answersFrom s.mesh (step.handled s)) = true →
      step.call.isHandled step.order s = true) ∧ ProvidedBefore s.mesh s.mesh (step.handled s))
    ⟨fun h => ⟨h.1, h.2.1, h.2.2⟩, fun h => ⟨h.refuses, h.returns, h.provided⟩⟩

/-- Every call of a run does. -/
def AllCareful : FipsInvWantStream config → List (StreamStep nostr) → Prop
  | _, [] => True
  | s, step :: steps => step.Careful s ∧ AllCareful (step.run s) steps

instance decidableAllCareful : ∀ (s : FipsInvWantStream config) (steps : List (StreamStep nostr)),
    Decidable (AllCareful s steps)
  | _, [] => inferInstanceAs (Decidable True)
  | s, step :: steps =>
    have := decidableAllCareful (step.run s) steps
    inferInstanceAs (Decidable (step.Careful s ∧ AllCareful (step.run s) steps))

end Returned

/-! ## Closing -/

/-- What it means that routes are closed by their own events, at an item of the call that follows
`before` in a run. `m` and `m'` are the meshes before and after it. -/
structure ClosesOwn (config : StreamConfig nostr σ) (policies : σ) (before : List (StreamStep nostr))
    (item : HandledStep nostr) (m m' : InvWantMesh) : Prop where
  /-- A route that becomes fulfilled is that of the event which the item carries. A want for it was
  sent to its sender, and it is as announced. -/
  closed : ∀ eventId, m.isFulfilled eventId = false → m'.isFulfilled eventId = true →
    ∃ sourcePeer verified, item.handled.carries = some (sourcePeer, eventId, verified) ∧
      verified.event.id.toHex = eventId ∧
      WantSent config policies before sourcePeer eventId ∧
      ∃ route ∈ m.upstreamRoutes.lookup eventId, route.announces nostr verified.event = true
  /-- A frame with another event than it names closes nothing and is held against its sender:
  all it does, after the prune, is to record an invalid message. -/
  foreign : ∀ sourcePeer eventId verified,
    item.handled.carries = some (sourcePeer, eventId, verified) →
      verified.event.id.toHex ≠ eventId →
        m'.isFulfilled eventId = true → m.isFulfilled eventId = true
  recorded : ∀ sourcePeer eventId verified,
    item.handled.carries = some (sourcePeer, eventId, verified) →
      verified.event.id.toHex ≠ eventId →
        ∃ nowMs, m' = (m.prune item.order nowMs).recordInvalidMessage sourcePeer

/-- The mesh after some items of a call. -/
def meshAt {config : StreamConfig nostr σ} (s : FipsInvWantStream config)
    (items : List (HandledStep nostr)) : InvWantMesh :=
  Mealy.after Step.run s.mesh (items.map HandledStep.meshStep)

/-- Routes are closed by their own events throughout a run. -/
def AllCloseOwn (config : StreamConfig nostr σ) (policies : σ) (steps : List (StreamStep nostr)) :
    Prop :=
  ∀ before step after, steps = before ++ step :: after →
    ∀ items item rest,
      step.handled (streamAfter config policies before) = items ++ item :: rest →
        ClosesOwn config policies before item (meshAt (streamAfter config policies before) items)
          (meshAt (streamAfter config policies before) (items ++ [item]))

/-! ## One item -/

section Item

variable {config : StreamConfig nostr σ} {policies : σ} {before : List (StreamStep nostr)}
  {item : HandledStep nostr} {m : InvWantMesh}

/-- The checks of a frame compare it with the announcement. -/
theorem announces_of_admissible {route : UpstreamRoute} {event : Event} {payloadBytes : ℕ}
    (hevent : Admissible nostr m.options event payloadBytes)
    (hkind : route.eventKind = event.kind) (hsize : route.payloadBytes = payloadBytes) :
    route.announces nostr event = true := by
  obtain ⟨_, _, payload, hjson, rfl, _⟩ := validateVerifiedEvent_eq_ok hevent.2
  simp [UpstreamRoute.announces, hkind, hsize, hjson, Except.toOption]

/-- A route of the pruned mesh is a route of the mesh. -/
theorem lookup_of_pruned {op : Op nostr} {order : RouteOrder} {eventId : String}
    {route : UpstreamRoute}
    (h : (op.pruned (InvWantMesh.prune order) m).upstreamRoutes.lookup eventId = some route) :
    m.upstreamRoutes.lookup eventId = some route := by
  -- `NoNewRoute` for the property of being this very route.
  have hsame : InvWantMesh.NoNewRoute (fun found => found = route) m
      (op.pruned (InvWantMesh.prune order) m) := by
    unfold Op.pruned
    split
    · exact .prune m order _
    · exact .refl m
  obtain ⟨found, hfound, rfl⟩ := hsame eventId ⟨route, h, rfl⟩
  exact hfound

/-- A frame that names another id than that of its event is rejected and recorded. -/
theorem receiveVerifiedFrame_foreign {order : RouteOrder} {sourcePeer eventId : String}
    {verified : VerifiedEvent nostr} (peers : List MeshPeer) (nowMs : ℕ)
    (hforeign : verified.event.id.toHex ≠ eventId) :
    (m.receiveVerifiedFrame (InvWantMesh.prune order) nostr sourcePeer eventId verified peers
      nowMs).2 = (m.prune order nowMs).recordInvalidMessage sourcePeer := by
  unfold InvWantMesh.receiveVerifiedFrame InvWantMesh.receiveFrame
  split
  · rfl
  · next route payloadBytes hadmitted =>
    obtain ⟨_, _, _, hid, _⟩ :=
      InvWantMesh.admitFrame_eq_ok (fun _ => verified.verified) hadmitted
    exact absurd hid.symm hforeign

/-- A frame with a foreign event, that the policy let through, is recorded. -/
theorem recorded_of_foreign (hrefuses : RefusesOwn m item.handled) {sourcePeer eventId : String}
    {verified : VerifiedEvent nostr}
    (hcarries : item.handled.carries = some (sourcePeer, eventId, verified))
    (hforeign : verified.event.id.toHex ≠ eventId) :
    ∃ nowMs,
      (item.meshStep.run m).2 = (m.prune item.order nowMs).recordInvalidMessage sourcePeer := by
  obtain ⟨handled, order⟩ := item
  cases handled with
  | admitted source id carried peers nowMs =>
    cases hcarries
    exact ⟨nowMs, receiveVerifiedFrame_foreign peers nowMs hforeign⟩
  | refused source id carried =>
    cases hcarries
    exact absurd hrefuses.1 hforeign
  | undecodable source => cases hcarries
  | inventory source id eventKind payloadBytes hopLimit peers nowMs => cases hcarries
  | want source id peers nowMs => cases hcarries
  | unverified source id event => cases hcarries
  | published carried peers nowMs => cases hcarries
  | replayed peerId nowMs => cases hcarries
  | seeded carried nowMs => cases hcarries
  | maintained nowMs => cases hcarries

/-- The items whose mesh call is a frame are those that the policy let through. -/
theorem carries_of_isFrame {handled : Handled nostr} {sourcePeer eventId : String} {event : Event}
    (h : handled.op.IsFrame sourcePeer eventId event) :
    ∃ verified, handled.carries = some (sourcePeer, eventId, verified) ∧
      verified.event = event := by
  cases handled with
  | admitted source id carried peers nowMs =>
    obtain ⟨rfl, rfl, rfl⟩ := h
    exact ⟨carried, rfl, rfl⟩
  | refused source id carried => cases h
  | undecodable source => cases h
  | inventory source id eventKind payloadBytes hopLimit peers nowMs => cases h
  | want source id peers nowMs => cases h
  | unverified source id event => cases h
  | published carried peers nowMs => cases h
  | replayed peerId nowMs => cases h
  | seeded carried nowMs => cases h
  | maintained nowMs => cases h

/-- The items whose mesh call dismisses a frame are those that the policy refused. -/
theorem eq_refused_of_op {handled : Handled nostr} {sourcePeer eventId : String}
    (h : handled.op = .dismissFrame sourcePeer eventId) :
    ∃ verified, handled = .refused sourcePeer eventId verified := by
  cases handled with
  | refused source id carried =>
    cases h
    exact ⟨carried, rfl⟩
  | admitted source id carried peers nowMs => cases h
  | undecodable source => cases h
  | inventory source id eventKind payloadBytes hopLimit peers nowMs => cases h
  | want source id peers nowMs => cases h
  | unverified source id event => cases h
  | published carried peers nowMs => cases h
  | replayed peerId nowMs => cases h
  | seeded carried nowMs => cases h
  | maintained nowMs => cases h

/-- The step lemma: an item that meets the condition closes its own route, or none. -/
theorem closesOwn_of_refusesOwn
    (hsent : ∀ sourcePeer eventId verified,
      item.handled.carries = some (sourcePeer, eventId, verified) →
        m.isFulfilled eventId = false → m.Provides sourcePeer eventId →
          WantSent config policies before sourcePeer eventId)
    (hrefuses : RefusesOwn m item.handled) :
    ClosesOwn config policies before item m (item.meshStep.run m).2 where
  closed := by
    intro eventId hopen hclosed
    rcases Op.apply_closes item.order m item.handled.op hopen hclosed with
      ⟨sourcePeer, event, route, payloadBytes, hframe, hroute, hprovider, hid, hevent, hkind,
        hsize⟩ | ⟨sourcePeer, hop, hprovides⟩
    · -- The mesh accepted a frame: its checks are the claim.
      obtain ⟨verified, hcarries, rfl⟩ := carries_of_isFrame hframe
      have hlookup := lookup_of_pruned hroute
      exact ⟨sourcePeer, verified, hcarries, hid.symm,
        hsent sourcePeer eventId verified hcarries hopen ⟨route, hlookup, hprovider⟩, route, hlookup,
        announces_of_admissible hevent hkind hsize⟩
    · -- The policy refused a frame: nothing was checked, and the condition takes its place.
      obtain ⟨verified, hrefused⟩ := eq_refused_of_op hop
      rw [hrefused] at hrefuses hsent ⊢
      obtain ⟨hid, hmatches⟩ := hrefuses
      have hasked := hsent sourcePeer eventId verified rfl hopen hprovides
      obtain ⟨route, hlookup, hprovider⟩ := hprovides
      have hunfulfilled : route.fulfilled = false := by
        simpa [InvWantMesh.isFulfilled, hlookup] using hopen
      exact ⟨sourcePeer, verified, rfl, hid, hasked, route, hlookup,
        hmatches route hlookup hunfulfilled hprovider⟩
  foreign := by
    intro sourcePeer eventId verified hcarries hforeign hclosed
    obtain ⟨nowMs, heq⟩ := recorded_of_foreign hrefuses hcarries hforeign
    rw [heq] at hclosed
    have hpruned : (m.prune item.order nowMs).isFulfilled eventId = true := hclosed
    rw [InvWantMesh.isFulfilled_iff] at hpruned ⊢
    exact InvWantMesh.NoNewRoute.prune m item.order nowMs eventId hpruned
  recorded := by
    intro sourcePeer eventId verified hcarries hforeign
    exact recorded_of_foreign hrefuses hcarries hforeign

end Item

/-! ## Wants are returned -/

section Wants

variable {config : StreamConfig nostr σ} {order : RouteOrder}

theorem answersFrom_append (m : InvWantMesh) (items more : List (HandledStep nostr)) :
    answersFrom m (items ++ more) = answersFrom m items ++
      answersFrom (Mealy.after Step.run m (items.map HandledStep.meshStep)) more := by
  induction items generalizing m with
  | nil => rfl
  | cons item items ih =>
    rw [List.cons_append, answersFrom, answersFrom, ih, List.append_assoc, List.map_cons,
      Mealy.after_cons]

/-- What the mesh sends throughout a run of it. -/
theorem mem_answersFrom_of_outputs {m : InvWantMesh} {items : List (HandledStep nostr)}
    {result : OpResult} {action : InvWantAction}
    (hresult : result ∈ Mealy.outputs Step.run m (items.map HandledStep.meshStep))
    (haction : action ∈ result.emitted) : action ∈ answersFrom m items := by
  induction items generalizing m with
  | nil => cases hresult
  | cons item items ih =>
    rw [List.map_cons, Mealy.outputs_cons, List.mem_cons] at hresult
    rw [answersFrom, List.mem_append]
    rcases hresult with rfl | hlater
    · exact .inl haction
    · exact .inr (ih hlater)

theorem asks_of_want_mem {actions : List InvWantAction} {peer eventId : String}
    (h : .send peer (.want eventId) ∈ actions) : asks actions = true :=
  List.any_eq_true.mpr ⟨_, h, rfl⟩

/-- A batch that is handled returns every message of the mesh. -/
theorem send_mem_receiveRecords {sourcePeer : String} {peers : List MeshPeer} {nowMs : ℕ}
    {records : List (List UInt8)} {s : FipsInvWantStream config}
    {actions : List (FipsInvWantStreamAction nostr)}
    (hok : (s.receiveRecords order sourcePeer peers nowMs records).1 = .ok actions)
    {peer : String} {message : InvWantWireMessage}
    (h : .send peer message ∈ answersFrom s.mesh
      ((StreamCall.handledRecords order sourcePeer peers nowMs records s).map
        fun handled => { handled, order })) :
    ∃ bytes, FipsInvWantStream.encodeAction config none (.send peer message)
        = .ok (.send peer bytes) ∧ .send peer bytes ∈ actions := by
  induction records generalizing s actions with
  | nil => cases h
  | cons record records ih =>
    obtain ⟨policies, hsnd⟩ :=
      FipsInvWantStream.receiveRecord_snd order sourcePeer peers nowMs record s
    rw [StreamCall.handledRecords, List.map_cons, answersFrom, List.mem_append] at h
    rw [FipsInvWantStream.receiveRecords] at hok
    rcases hrecord : s.receiveRecord order sourcePeer peers nowMs record with ⟨error | first, s'⟩
    · rw [hrecord] at hok
      cases hok
    rw [hrecord] at hok h hsnd
    simp only at hok h hsnd
    rcases hrest : s'.receiveRecords order sourcePeer peers nowMs records with ⟨error | rest, s''⟩
    · rw [hrest] at hok
      cases hok
    rw [hrest] at hok
    cases hok
    rcases h with hfirst | hlater
    · obtain ⟨bytes, hencode, hmem⟩ :=
        FipsInvWantStream.send_mem_receiveRecord (by rw [hrecord]) hfirst
      exact ⟨bytes, hencode, List.mem_append_left _ hmem⟩
    · subst hsnd
      obtain ⟨bytes, hencode, hmem⟩ := ih (by rw [hrest]) hlater
      exact ⟨bytes, hencode, List.mem_append_right _ hmem⟩

theorem exists_of_isOk {α : Type} {result : Except PubsubError α} (h : result.isOk = true) :
    ∃ a, result = .ok a := by
  cases result with
  | error error => cases h
  | ok a => exact ⟨a, rfl⟩

/-- A `receive_bytes` that succeeds returns every message of the mesh. -/
theorem send_mem_receiveBytes {sourcePeer : String} {bytes : List UInt8}
    {connectedPeers : List String} {nowMs : ℕ} {s : FipsInvWantStream config}
    (hok : (s.receiveBytes order sourcePeer bytes connectedPeers nowMs).1.isOk = true)
    {peer : String} {message : InvWantWireMessage}
    (h : .send peer message ∈ answersFrom s.mesh
      (((StreamCall.receiveBytes sourcePeer bytes connectedPeers nowMs).handled order s).map
        fun handled => { handled, order })) :
    ∃ record, FipsInvWantStream.encodeAction config none (.send peer message)
        = .ok (.send peer record) ∧
      .send peer record ∈
        (s.receiveBytes order sourcePeer bytes connectedPeers nowMs).1.toOption.getD [] := by
  have hselect := selectPeer_mesh sourcePeer s
  simp only [FipsInvWantStream.receiveBytes, StreamCall.handled] at hok h ⊢
  generalize s.selectPeer sourcePeer = selected at hselect hok h ⊢
  obtain ⟨error | (_ | found), s₁⟩ := selected
  · cases h
  · cases h
  have hdecode := decodeRecords_mesh sourcePeer bytes s₁
  simp only at hok h ⊢
  generalize s₁.decodeRecords sourcePeer bytes = decoded at hdecode hok h ⊢
  obtain ⟨error | records, s₂⟩ := decoded
  · cases h
  have hpeers := selectPeers_mesh connectedPeers s₂
  simp only at hok h ⊢
  generalize s₂.selectPeers connectedPeers = connected at hpeers hok h ⊢
  obtain ⟨error | peers, s₃⟩ := connected
  · cases h
  have hmesh : s₃.mesh = s.mesh := hpeers.trans (hdecode.trans hselect)
  simp only at hok h ⊢
  rw [← hmesh] at h
  obtain ⟨actions, hactions⟩ := exists_of_isOk hok
  rw [hactions]
  exact send_mem_receiveRecords hactions h

/-- Publishing asks nobody. -/
theorem published_asks_nobody {m : InvWantMesh} {verified : VerifiedEvent nostr}
    {peers : List MeshPeer} {nowMs : ℕ} {peer eventId : String} :
    .send peer (.want eventId) ∉ Handled.answer order m (.published verified peers nowMs) := by
  intro hmem
  have hanswer : .send peer (.want eventId) ∈ (OpResult.returned
      (m.publishVerified (InvWantMesh.prune order) nostr verified peers nowMs).1).emitted := hmem
  simp only [InvWantMesh.publishVerified, InvWantMesh.withValidated] at hanswer
  split at hanswer
  · cases hanswer
  · simp only [InvWantMesh.publishValidated, OpResult.emitted] at hanswer
    split at hanswer
    · cases hanswer
    · obtain ⟨found, -, hsend⟩ := List.mem_map.mp hanswer
      cases hsend

/-- Announcing the cached events to a peer asks nobody. -/
theorem replayed_asks_nobody {m : InvWantMesh} {peerId : String} {nowMs : ℕ}
    {peer eventId : String} :
    .send peer (.want eventId) ∉
      Handled.answer order m (.replayed peerId nowMs : Handled nostr) := by
  intro hmem
  obtain ⟨cachedId, -, hcached⟩ := List.mem_filterMap.mp hmem
  obtain ⟨cached, -, hsend⟩ := Option.map_eq_some_iff.mp hcached
  cases hsend

/-- Every want of the mesh in a careful call is returned. -/
theorem StreamStep.Careful.want_mem_returned {step : StreamStep nostr} {s : FipsInvWantStream config}
    (hstep : step.Careful s) {peer eventId : String}
    (h : .send peer (.want eventId) ∈ answersFrom s.mesh (step.handled s)) :
    ∃ bytes, FipsInvWantStream.encodeAction config none (.send peer (.want eventId))
        = .ok (.send peer bytes) ∧ .send peer bytes ∈ step.call.returned step.order s := by
  have hreturns := hstep.returns (asks_of_want_mem h)
  obtain ⟨call, order⟩ := step
  cases call with
  | receiveBytes sourcePeer bytes connectedPeers nowMs =>
    refine send_mem_receiveBytes ?_ h
    rw [FipsInvWantStream.isOk_receiveBytes]
    exact hreturns
  | publish verified connectedPeers nowMs =>
    simp only [StreamStep.handled, StreamCall.handled] at h
    split at h
    · cases h
    · split at h
      · cases h
      · simp only [List.map_cons, List.map_nil, answersFrom, List.append_nil] at h
        exact absurd h published_asks_nobody
  | peerConnected peerId nowMs =>
    simp only [StreamStep.handled, StreamCall.handled] at h
    split at h
    · cases h
    · cases h
    · simp only [List.map_cons, List.map_nil, answersFrom, List.append_nil] at h
      exact absurd h replayed_asks_nobody
  | disconnectPeer peerId => cases h
  | seed verified nowMs =>
    simp only [StreamStep.handled, StreamCall.handled] at h
    split at h
    · cases h
    · cases h
  | maintain nowMs => cases h

/-- Every want of the mesh in a careful run is returned. -/
theorem AllCareful.want_mem_returned {s : FipsInvWantStream config} {steps : List (StreamStep nostr)}
    (hsteps : AllCareful s steps) {peer eventId : String}
    (h : .send peer (.want eventId) ∈ answersFrom s.mesh (StreamStep.handledFrom s steps)) :
    ∃ bytes, FipsInvWantStream.encodeAction config none (.send peer (.want eventId))
        = .ok (.send peer bytes) ∧ .send peer bytes ∈ StreamStep.returnedFrom s steps := by
  induction steps generalizing s with
  | nil => cases h
  | cons step steps ih =>
    have hmesh : Mealy.after Step.run s.mesh ((step.handled s).map HandledStep.meshStep) =
        (step.run s).mesh := by
      rw [StreamStep.run, step.call.apply_mesh step.order s, StreamStep.handled, List.map_map]
      rfl
    rw [StreamStep.handledFrom, answersFrom_append, hmesh, List.mem_append] at h
    rw [StreamStep.returnedFrom]
    rcases h with hfirst | hlater
    · obtain ⟨bytes, hencode, hmem⟩ := hsteps.1.want_mem_returned hfirst
      exact ⟨bytes, hencode, List.mem_append_left _ hmem⟩
    · obtain ⟨bytes, hencode, hmem⟩ := ih hsteps.2 hlater
      exact ⟨bytes, hencode, List.mem_append_right _ hmem⟩

end Wants

/-! ## Runs -/

section Runs

variable {config : StreamConfig nostr σ}

/-- The condition at one item of a call. -/
theorem RefusesOnlyOwn.at {before after : List (HandledStep nostr)} {item : HandledStep nostr}
    {m : InvWantMesh} (h : RefusesOnlyOwn m (before ++ item :: after)) :
    RefusesOwn (Mealy.after Step.run m (before.map HandledStep.meshStep)) item.handled := by
  induction before generalizing m with
  | nil => exact h.1
  | cons first rest ih => exact ih h.2

theorem ProvidedBefore.at {start : InvWantMesh} {before after : List (HandledStep nostr)}
    {item : HandledStep nostr} {m : InvWantMesh}
    (h : ProvidedBefore start m (before ++ item :: after)) {sourcePeer eventId : String}
    {verified : VerifiedEvent nostr}
    (hcarries : item.handled.carries = some (sourcePeer, eventId, verified))
    (hopen : (Mealy.after Step.run m (before.map HandledStep.meshStep)).isFulfilled eventId = false)
    (hprovides : (Mealy.after Step.run m (before.map HandledStep.meshStep)).isProvider sourcePeer
      eventId = true) : start.isProvider sourcePeer eventId = true := by
  induction before generalizing m with
  | nil => exact h.1 _ hcarries hopen hprovides
  | cons first rest ih => exact ih h.2 hopen hprovides

/-- The calls before one of a careful run, and the call itself, are careful. -/
theorem AllCareful.at {before after : List (StreamStep nostr)} {step : StreamStep nostr}
    {s : FipsInvWantStream config} (h : AllCareful s (before ++ step :: after)) :
    AllCareful s before ∧ step.Careful (before.foldl (fun s step => step.run s) s) := by
  induction before generalizing s with
  | nil => exact ⟨trivial, h.1⟩
  | cons first rest ih =>
    obtain ⟨hrest, hstep⟩ := ih h.2
    exact ⟨⟨h.1, hrest⟩, hstep⟩

theorem InvWantMesh.isProvider_iff {m : InvWantMesh} {peer eventId : String} :
    m.isProvider peer eventId = true ↔ m.Provides peer eventId := by
  rw [InvWantMesh.isProvider, Option.any_eq_true]
  simp only [UpstreamRoute.hasProvider_iff]
  rfl

/-- In a careful run a peer that provides an event was sent a want for it. -/
theorem wantSent_of_provides {policies : σ} {steps : List (StreamStep nostr)}
    (h : AllCareful (.new config policies) steps) {peer eventId : String}
    (hprovides : (streamAfter config policies steps).mesh.Provides peer eventId) :
    WantSent config policies steps peer eventId := by
  rw [streamAfter_mesh] at hprovides
  obtain ⟨result, hresult, hemitted⟩ :=
    (sound_meshAfter config.options.mesh _).asked peer eventId hprovides
  exact h.want_mem_returned (mem_answersFrom_of_outputs hresult hemitted)

end Runs

/-- In every run of the stream whose refused frames carry the events they name, as announced, whose
calls return what they ask for, and in which nobody sends a frame in the call that makes it a provider,
routes are closed by their own events only, from peers that were sent a want: at every item that a call
handles, and the mesh after the call is the mesh after these items. -/
theorem allCloseOwn_of_allCareful (config : StreamConfig nostr σ) (policies : σ)
    (steps : List (StreamStep nostr)) (h : AllCareful (.new config policies) steps) :
    AllCloseOwn config policies steps ∧
      ∀ before step after, steps = before ++ step :: after →
        (step.run (streamAfter config policies before)).mesh =
          meshAt (streamAfter config policies before)
            (step.handled (streamAfter config policies before)) := by
  refine ⟨?_, fun before step after hsteps => ?_⟩
  · intro before step after hsteps items item rest hitems
    rw [hsteps] at h
    obtain ⟨hbefore, hstep⟩ := h.at
    change step.Careful (streamAfter config policies before) at hstep
    have hrefuses := hstep.refuses
    have hprovided := hstep.provided
    rw [hitems] at hrefuses hprovided
    have hsent : ∀ sourcePeer eventId verified,
        item.handled.carries = some (sourcePeer, eventId, verified) →
          (meshAt (streamAfter config policies before) items).isFulfilled eventId = false →
            (meshAt (streamAfter config policies before) items).Provides sourcePeer eventId →
              WantSent config policies before sourcePeer eventId :=
      fun sourcePeer eventId verified hcarries hopen hprovides =>
        wantSent_of_provides hbefore (InvWantMesh.isProvider_iff.mp
          (hprovided.at hcarries hopen (InvWantMesh.isProvider_iff.mpr hprovides)))
    have hclose := closesOwn_of_refusesOwn hsent hrefuses.at
    rw [meshAt, meshAt, List.map_append, List.map_cons, List.map_nil, Mealy.after_concat]
    exact hclose
  · rw [StreamStep.run, step.call.apply_mesh step.order, meshAt, StreamStep.handled, List.map_map]
    rfl


/-! ## A policy that drops a note -/

/-- The stream of the notes, with an event policy that drops the second one. -/
def droppingConfig : StreamConfig noteCrate Unit where
  options := {}
  valid := noteConfig.valid
  serde := noteSerde
  eventPolicy := some fun policies verified _ =>
    (.ok (if verified.event = noteB then .drop "muted" else .allow 200), policies)
  peerPolicy := none

/-- Peer `p` sends the record of a message. -/
def noteSent (message : InvWantWireMessage) : StreamStep noteCrate :=
  { call := .receiveBytes "p" (noteRecord message) [] 10, order := .ascending _ }

/-- Both notes are announced and sent, each under its own id. -/
def ownFrames : List (StreamStep noteCrate) :=
  [noteSent (noteInventory noteA), noteSent (noteFrame noteA), noteSent (noteInventory noteB),
    noteSent (noteFrame noteB)]

/-- There the dropped note closes its own route. -/
theorem allCloseOwn_ownFrames :
    AllCloseOwn droppingConfig () ownFrames ∧
      ∀ before step after, ownFrames = before ++ step :: after →
        (step.run (streamAfter droppingConfig () before)).mesh =
          meshAt (streamAfter droppingConfig () before)
            (step.handled (streamAfter droppingConfig () before)) :=
  allCloseOwn_of_allCareful droppingConfig () ownFrames (by decide +kernel)

/-- The first note is announced, and the dropped one is sent under its id. -/
def foreignFrame : List (StreamStep noteCrate) :=
  [noteSent (noteInventory noteA), noteSent (.frame noteA.id.toHex noteB)]

/-- There the dropped note closes the route of the first one. -/
theorem not_allCloseOwn_foreignFrame : ¬AllCloseOwn droppingConfig () foreignFrame := by
  have hsteps : foreignFrame = [noteSent (noteInventory noteA)] ++
      noteSent (.frame noteA.id.toHex noteB) :: [] := rfl
  have hrun : ((noteSent (.frame noteA.id.toHex noteB)).handled
        (streamAfter droppingConfig () [noteSent (noteInventory noteA)])).length = 1 ∧
      ((noteSent (.frame noteA.id.toHex noteB)).handled
        (streamAfter droppingConfig () [noteSent (noteInventory noteA)]))[0]?.bind
          (fun item => item.handled.carries) = some ("p", noteA.id.toHex, ⟨noteB, rfl⟩) ∧
      (meshAt (streamAfter droppingConfig () [noteSent (noteInventory noteA)])
        []).isFulfilled noteA.id.toHex = false ∧
      (meshAt (streamAfter droppingConfig () [noteSent (noteInventory noteA)])
        ((noteSent (.frame noteA.id.toHex noteB)).handled
          (streamAfter droppingConfig () [noteSent (noteInventory noteA)]))).isFulfilled
            noteA.id.toHex = true := by
    decide +kernel
  obtain ⟨hlength, hcarries, hopen, hclosed⟩ := hrun
  intro h
  obtain ⟨item, hitems⟩ := List.length_eq_one_iff.mp hlength
  rw [hitems] at hcarries hclosed
  have hforeign := (h _ _ _ hsteps [] item [] hitems).foreign _ _ _ hcarries (by decide +kernel)
    hclosed
  exact Bool.noConfusion (hforeign.symm.trans hopen)

end NostrPubsub
