import NostrPubsub.Stream.Records

/-!
# Runs of the stream

`StreamCall` is one call of a public operation of `FipsInvWantStream`, `StreamStep` a call with
the order in which its prunes visit the routes. A run is a list of steps from a new stream;
nothing restricts the bytes, peers or clock values in it.

A call does to the mesh what the calls of its `handled` list do, one after the other
(`apply_mesh`): the stream refines the mesh, and what holds of every run of the mesh holds of
the mesh inside every run of the stream (`streamAfter_mesh`).
-/

namespace NostrPubsub

variable {nostr : NostrCrate} {σ : Type} {config : StreamConfig nostr σ}

/-- One call of a public operation of the stream. -/
inductive StreamCall (nostr : NostrCrate) where
  | receiveBytes (sourcePeer : String) (bytes : List UInt8) (connectedPeers : List String)
      (nowMs : ℕ)
  | publish (verified : VerifiedEvent nostr) (connectedPeers : List String) (nowMs : ℕ)
  | peerConnected (peerId : String) (nowMs : ℕ)
  | disconnectPeer (peerId : String)
  | seed (verified : VerifiedEvent nostr) (nowMs : ℕ)
  | maintain (nowMs : ℕ)

namespace StreamCall

/-- The stream after a call. -/
def apply (order : RouteOrder) (s : FipsInvWantStream config) :
    StreamCall nostr → FipsInvWantStream config
  | .receiveBytes sourcePeer bytes connectedPeers nowMs =>
    (s.receiveBytes order sourcePeer bytes connectedPeers nowMs).2
  | .publish verified connectedPeers nowMs => (s.publish order verified connectedPeers nowMs).2
  | .peerConnected peerId nowMs => (s.peerConnected order peerId nowMs).2
  | .disconnectPeer peerId => s.disconnectPeer peerId
  | .seed verified nowMs => (s.seed order verified nowMs).2
  | .maintain nowMs => s.maintain order nowMs

/-- The records that the loop of `receive_bytes` handles: all of them, or those up to the
first that fails. -/
def handledRecords (order : RouteOrder) (sourcePeer : String) (peers : List MeshPeer)
    (nowMs : ℕ) : List (List UInt8) → FipsInvWantStream config → List (Handled nostr)
  | [], _ => []
  | record :: records, s =>
    FipsInvWantStream.handledRecord sourcePeer peers nowMs record s ::
      match s.receiveRecord order sourcePeer peers nowMs record with
      | (.error _, _) => []
      | (.ok _, s) => handledRecords order sourcePeer peers nowMs records s

/-- What a call handles, in its order. -/
def handled (order : RouteOrder) (s : FipsInvWantStream config) :
    StreamCall nostr → List (Handled nostr)
  | .receiveBytes sourcePeer bytes connectedPeers nowMs =>
    match s.selectPeer sourcePeer with
    | (.error _, _) => []
    | (.ok none, _) => []
    | (.ok (some _), s) =>
      match s.decodeRecords sourcePeer bytes with
      | (.error _, _) => []
      | (.ok records, s) =>
        match s.selectPeers connectedPeers with
        | (.error _, _) => []
        | (.ok peers, s) => handledRecords order sourcePeer peers nowMs records s
  | .publish verified connectedPeers nowMs =>
    match FipsInvWantStream.ensureEventRecordFits config verified with
    | .error _ => []
    | .ok () =>
      match s.selectPeers connectedPeers with
      | (.error _, _) => []
      | (.ok peers, _) => [.published verified peers nowMs]
  | .peerConnected peerId nowMs =>
    match s.selectPeer peerId with
    | (.error _, _) => []
    | (.ok none, _) => []
    | (.ok (some _), _) => [.replayed peerId nowMs]
  | .disconnectPeer _ => []
  | .seed verified nowMs =>
    match FipsInvWantStream.ensureEventRecordFits config verified with
    | .error _ => []
    | .ok () => [.seeded verified nowMs]
  | .maintain nowMs => [.maintained nowMs]

end StreamCall

/-- The step of the mesh that something handled leads to. -/
def Handled.step (order : RouteOrder) (item : Handled nostr) : Step nostr :=
  { op := item.op, order }

/-- A handled record or call, with the order in which its prune visits the routes. -/
structure HandledStep (nostr : NostrCrate) where
  handled : Handled nostr
  order : RouteOrder

/-- The step of the mesh. -/
def HandledStep.meshStep (item : HandledStep nostr) : Step nostr := item.handled.step item.order

/-- A call and the order in which its prunes visit the routes. -/
structure StreamStep (nostr : NostrCrate) where
  call : StreamCall nostr
  order : RouteOrder

namespace StreamStep

/-- One step of the stream. -/
def run (step : StreamStep nostr) (s : FipsInvWantStream config) : FipsInvWantStream config :=
  step.call.apply step.order s

/-- What one step of the stream handles. -/
def handled (step : StreamStep nostr) (s : FipsInvWantStream config) : List (HandledStep nostr) :=
  (step.call.handled step.order s).map fun handled => { handled, order := step.order }

/-- What a run handles. -/
def handledFrom : FipsInvWantStream config → List (StreamStep nostr) → List (HandledStep nostr)
  | _, [] => []
  | s, step :: steps => step.handled s ++ handledFrom (step.run s) steps

end StreamStep

/-- The stream after a run. -/
def streamAfter (config : StreamConfig nostr σ) (policies : σ) (steps : List (StreamStep nostr)) :
    FipsInvWantStream config :=
  steps.foldl (fun s step => step.run s) (.new config policies)

/-- All that a run handles. -/
def streamHandled (config : StreamConfig nostr σ) (policies : σ)
    (steps : List (StreamStep nostr)) : List (HandledStep nostr) :=
  StreamStep.handledFrom (.new config policies) steps

/-! ## The stream refines the mesh -/

section Refinement

variable {order : RouteOrder} {s : FipsInvWantStream config}

theorem receiveRecords_mesh (sourcePeer : String) (peers : List MeshPeer) (nowMs : ℕ)
    (records : List (List UInt8)) (s : FipsInvWantStream config) :
    (s.receiveRecords order sourcePeer peers nowMs records).2.mesh =
      Mealy.after Step.run s.mesh
        ((StreamCall.handledRecords order sourcePeer peers nowMs records s).map
          (Handled.step order)) := by
  induction records generalizing s with
  | nil => rfl
  | cons record records ih =>
    obtain ⟨policies, hsnd⟩ :=
      FipsInvWantStream.receiveRecord_snd order sourcePeer peers nowMs record s
    have hmesh : (s.receiveRecord order sourcePeer peers nowMs record).2.mesh =
        (((FipsInvWantStream.handledRecord sourcePeer peers nowMs record s).step order).run
          s.mesh).2 := by
      rw [hsnd]
      rfl
    rw [FipsInvWantStream.receiveRecords, StreamCall.handledRecords, List.map_cons,
      Mealy.after_cons, ← hmesh]
    rcases s.receiveRecord order sourcePeer peers nowMs record with ⟨error | actions, s'⟩
    · rfl
    · -- The rest of the batch goes on from the mesh that this record left.
      have hrest := ih s'
      simp only
      rcases hrecords : FipsInvWantStream.receiveRecords order sourcePeer peers nowMs records s'
        with ⟨error | output, s''⟩
      · rwa [hrecords] at hrest
      · rwa [hrecords] at hrest

theorem decodeRecords_mesh (sourcePeer : String) (bytes : List UInt8)
    (s : FipsInvWantStream config) : (s.decodeRecords sourcePeer bytes).2.mesh = s.mesh := by
  unfold FipsInvWantStream.decodeRecords
  split
  · rfl
  · rfl

theorem selectPeer_mesh (peerId : String) (s : FipsInvWantStream config) :
    (s.selectPeer peerId).2.mesh = s.mesh := by
  obtain ⟨policies, hsnd⟩ := s.selectPeer_snd peerId
  rw [hsnd]

theorem selectPeers_mesh (peerIds : List String) (s : FipsInvWantStream config) :
    (s.selectPeers peerIds).2.mesh = s.mesh := by
  obtain ⟨policies, hsnd⟩ := s.selectPeers_snd peerIds
  rw [hsnd]

theorem receiveBytes_mesh (sourcePeer : String) (bytes : List UInt8)
    (connectedPeers : List String) (nowMs : ℕ) (s : FipsInvWantStream config) :
    (s.receiveBytes order sourcePeer bytes connectedPeers nowMs).2.mesh =
      Mealy.after Step.run s.mesh
        (((StreamCall.receiveBytes sourcePeer bytes connectedPeers nowMs).handled order s).map
          (Handled.step order)) := by
  have hselect := selectPeer_mesh sourcePeer s
  simp only [FipsInvWantStream.receiveBytes, StreamCall.handled]
  generalize s.selectPeer sourcePeer = selected at hselect ⊢
  obtain ⟨error | (_ | peer), s₁⟩ := selected
  · exact hselect
  · exact hselect
  have hdecode := decodeRecords_mesh sourcePeer bytes s₁
  simp only
  generalize s₁.decodeRecords sourcePeer bytes = decoded at hdecode ⊢
  obtain ⟨error | records, s₂⟩ := decoded
  · exact hdecode.trans hselect
  have hpeers := selectPeers_mesh connectedPeers s₂
  simp only
  generalize s₂.selectPeers connectedPeers = connected at hpeers ⊢
  obtain ⟨error | peers, s₃⟩ := connected
  · exact hpeers.trans (hdecode.trans hselect)
  · have hmesh : s₃.mesh = s.mesh := hpeers.trans (hdecode.trans hselect)
    simp only
    rw [receiveRecords_mesh, hmesh]

/-- A call does to the mesh what it handles does. -/
theorem StreamCall.apply_mesh (order : RouteOrder) (call : StreamCall nostr)
    (s : FipsInvWantStream config) :
    (call.apply order s).mesh =
      Mealy.after Step.run s.mesh ((call.handled order s).map (Handled.step order)) := by
  cases call with
  | receiveBytes sourcePeer bytes connectedPeers nowMs =>
    exact receiveBytes_mesh sourcePeer bytes connectedPeers nowMs s
  | publish verified connectedPeers nowMs =>
    simp only [apply, handled, FipsInvWantStream.publish]
    rcases FipsInvWantStream.ensureEventRecordFits config verified with error | _
    · rfl
    have hpeers := selectPeers_mesh connectedPeers s
    simp only
    generalize s.selectPeers connectedPeers = connected at hpeers ⊢
    obtain ⟨error | peers, s'⟩ := connected
    · exact hpeers
    · show (s'.mesh.publishVerified (InvWantMesh.prune order) nostr verified peers nowMs).2
        = (s.mesh.publishVerified (InvWantMesh.prune order) nostr verified peers nowMs).2
      rw [hpeers]
  | peerConnected peerId nowMs =>
    have hselect := selectPeer_mesh peerId s
    simp only [apply, handled, FipsInvWantStream.peerConnected]
    generalize s.selectPeer peerId = selected at hselect ⊢
    obtain ⟨error | (_ | peer), s'⟩ := selected
    · exact hselect
    · exact hselect
    · show (s'.mesh.replayCachedToPeer (InvWantMesh.prune order) peerId nowMs).2
        = (s.mesh.replayCachedToPeer (InvWantMesh.prune order) peerId nowMs).2
      rw [hselect]
  | disconnectPeer peerId => rfl
  | seed verified nowMs =>
    simp only [apply, handled, FipsInvWantStream.seed]
    rcases FipsInvWantStream.ensureEventRecordFits config verified with error | _
    · rfl
    · rfl
  | maintain nowMs => rfl

/-- The mesh inside a run of the stream is the mesh after what the run handled. -/
theorem streamAfter_mesh (config : StreamConfig nostr σ) (policies : σ)
    (steps : List (StreamStep nostr)) :
    (streamAfter config policies steps).mesh =
      meshAfter config.options.mesh
        ((streamHandled config policies steps).map HandledStep.meshStep) := by
  have hfrom : ∀ (steps : List (StreamStep nostr)) (s : FipsInvWantStream config),
      (steps.foldl (fun s step => step.run s) s).mesh =
        Mealy.after Step.run s.mesh
          ((StreamStep.handledFrom s steps).map HandledStep.meshStep) := by
    intro steps
    induction steps with
    | nil => exact fun s => rfl
    | cons step steps ih =>
      intro s
      rw [List.foldl_cons, ih, StreamStep.handledFrom, List.map_append, Mealy.after_append]
      have hstep := step.call.apply_mesh step.order s
      rw [StreamStep.run, hstep, StreamStep.handled, List.map_map]
      rfl
  exact hfrom steps (.new config policies)

end Refinement

end NostrPubsub
