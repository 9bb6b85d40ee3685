import NostrPubsub.Mesh.Operations
import NostrPubsub.ToMathlib.Mealy

/-!
# Runs of the mesh

`Op` is one call of a public operation of `InvWantMesh` with its arguments, `Step` a call
together with the iteration order of the hash map it may prune. A run is a list of steps from
`InvWantMesh.new options`; nothing restricts the messages, peers or clock values in it.
-/

namespace NostrPubsub

/-- One call of a public operation of the mesh. -/
inductive Op (nostr : NostrCrate) where
  | publish (event : Event) (peers : List MeshPeer) (nowMs : ℕ)
  | publishVerified (verified : VerifiedEvent nostr) (peers : List MeshPeer) (nowMs : ℕ)
  | replayToPeer (event : Event) (peerId : String) (nowMs : ℕ)
  | replayVerifiedToPeer (verified : VerifiedEvent nostr) (peerId : String) (nowMs : ℕ)
  | replayCachedToPeer (peerId : String) (nowMs : ℕ)
  | seedVerified (verified : VerifiedEvent nostr) (nowMs : ℕ)
  | receive (sourcePeer : String) (message : InvWantWireMessage) (peers : List MeshPeer)
      (nowMs : ℕ)
  | receiveVerifiedFrame (sourcePeer eventId : String) (verified : VerifiedEvent nostr)
      (peers : List MeshPeer) (nowMs : ℕ)
  | dismissFrame (peerId eventId : String)
  | recordInvalidMessage (peerId : String)
  | recordTransportDisruption (peerId eventId : String)
  | maintain (nowMs : ℕ)

/-- What a call returns. -/
inductive OpResult where
  | returned (result : Except PubsubError (List InvWantAction))
  | seeded (result : Except PubsubError Unit)
  | disrupted (marked : Bool)
  | done

/-- The actions a call hands to its caller. -/
def OpResult.emitted : OpResult → List InvWantAction
  | .returned (.ok actions) => actions
  | _ => []

namespace Op

variable {nostr : NostrCrate}

/-- The clock value of a call, if the operation takes one. -/
def clock : Op nostr → Option ℕ
  | .publish _ _ nowMs => some nowMs
  | .publishVerified _ _ nowMs => some nowMs
  | .replayToPeer _ _ nowMs => some nowMs
  | .replayVerifiedToPeer _ _ nowMs => some nowMs
  | .replayCachedToPeer _ nowMs => some nowMs
  | .seedVerified _ nowMs => some nowMs
  | .receive _ _ _ nowMs => some nowMs
  | .receiveVerifiedFrame _ _ _ _ nowMs => some nowMs
  | .dismissFrame _ _ => none
  | .recordInvalidMessage _ => none
  | .recordTransportDisruption _ _ => none
  | .maintain nowMs => some nowMs

/-- Perform a call on a mesh that starts its operations with `prune`. -/
def apply (prune : ℕ → InvWantMesh → InvWantMesh) (m : InvWantMesh) :
    Op nostr → OpResult × InvWantMesh
  | .publish event peers nowMs =>
    let (result, m) := m.publish prune nostr event peers nowMs
    (.returned result, m)
  | .publishVerified verified peers nowMs =>
    let (result, m) := m.publishVerified prune nostr verified peers nowMs
    (.returned result, m)
  | .replayToPeer event peerId nowMs =>
    let (result, m) := m.replayToPeer prune nostr event peerId nowMs
    (.returned result, m)
  | .replayVerifiedToPeer verified peerId nowMs =>
    let (result, m) := m.replayVerifiedToPeer prune nostr verified peerId nowMs
    (.returned result, m)
  | .replayCachedToPeer peerId nowMs =>
    let (actions, m) := m.replayCachedToPeer prune peerId nowMs
    (.returned (.ok actions), m)
  | .seedVerified verified nowMs =>
    let (result, m) := m.seedVerified prune nostr verified nowMs
    (.seeded result, m)
  | .receive sourcePeer message peers nowMs =>
    let (result, m) := m.receive prune nostr sourcePeer message peers nowMs
    (.returned result, m)
  | .receiveVerifiedFrame sourcePeer eventId verified peers nowMs =>
    let (result, m) := m.receiveVerifiedFrame prune nostr sourcePeer eventId verified peers nowMs
    (.returned result, m)
  | .dismissFrame peerId eventId => (.done, m.dismissFrame peerId eventId)
  | .recordInvalidMessage peerId => (.done, m.recordInvalidMessage peerId)
  | .recordTransportDisruption peerId eventId =>
    let (marked, m) := m.recordTransportDisruption peerId eventId
    (.disrupted marked, m)
  | .maintain nowMs => (.done, m.maintain prune nowMs)

end Op

/-- A call and the order in which it iterates over the routes. -/
structure Step (nostr : NostrCrate) where
  op : Op nostr
  order : RouteOrder

namespace Step

variable {nostr : NostrCrate}

/-- The clock value of the call. -/
def clock (s : Step nostr) : Option ℕ := s.op.clock

/-- One step of the source's mesh. -/
def run (s : Step nostr) (m : InvWantMesh) : OpResult × InvWantMesh :=
  s.op.apply (InvWantMesh.prune s.order) m

/-- One step of the mesh that runs the body of `prune` in every operation. -/
def runEager (s : Step nostr) (m : InvWantMesh) : OpResult × InvWantMesh :=
  s.op.apply (InvWantMesh.pruneExpired s.order) m

end Step

/-- The mesh after a run. -/
def meshAfter {nostr : NostrCrate} (options : InvWantMeshOptions) (steps : List (Step nostr)) :
    InvWantMesh :=
  Mealy.after Step.run (InvWantMesh.new options) steps

/-- The results of a run, one for each step. -/
def meshResults {nostr : NostrCrate} (options : InvWantMeshOptions) (steps : List (Step nostr)) :
    List OpResult :=
  Mealy.outputs Step.run (InvWantMesh.new options) steps

/-- The mesh after a run that prunes in every call. -/
def eagerMeshAfter {nostr : NostrCrate} (options : InvWantMeshOptions)
    (steps : List (Step nostr)) : InvWantMesh :=
  Mealy.after Step.runEager (InvWantMesh.new options) steps

/-- The results of a run that prunes in every call. -/
def eagerMeshResults {nostr : NostrCrate} (options : InvWantMeshOptions)
    (steps : List (Step nostr)) : List OpResult :=
  Mealy.outputs Step.runEager (InvWantMesh.new options) steps

theorem meshAfter_append {nostr : NostrCrate} (options : InvWantMeshOptions)
    (before after : List (Step nostr)) :
    meshAfter options (before ++ after) = Mealy.after Step.run (meshAfter options before) after :=
  Mealy.after_append Step.run _ before after

theorem meshAfter_concat {nostr : NostrCrate} (options : InvWantMeshOptions)
    (steps : List (Step nostr)) (next : Step nostr) :
    meshAfter options (steps ++ [next]) = (next.run (meshAfter options steps)).2 :=
  Mealy.after_concat Step.run _ steps next

/-- A call that visits the routes in ascending order of their ids. -/
def Step.ascending {nostr : NostrCrate} (op : Op nostr) : Step nostr :=
  { op, order := .ascending _ }

/-- Peer `p` announces a note. -/
def noteAnnounced (nowMs : ℕ) : Step noteCrate :=
  .ascending (.receive "p" (noteInventory noteA) [] nowMs)

/-- Peer `p` sends the note it was asked for. -/
def noteReceived (nowMs : ℕ) : Step noteCrate :=
  .ascending (.receive "p" (.frame noteA.id.toHex noteA) [] nowMs)

/-- A run that receives a note. -/
def noteRun : List (Step noteCrate) := [noteAnnounced 10, noteReceived 20]

end NostrPubsub
