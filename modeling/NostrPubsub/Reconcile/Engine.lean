import NostrPubsub.Reconcile.RangeEngine

/-!
# The engine over bytes

`engine.rs` and `codec.rs` of `nostr-pubsub-reconcile`. The engine reads a frame and writes its
answer in one loop, with the bases of the coded timestamps in its own fields; they and the local
variables of the loop are the fields of `Locals`. A subtraction that could underflow, a slice and a
call of the storage with two indices are checked, so that a run that returns made none of them
out of range.
-/

namespace NostrPubsub.Reconcile

/-- What the program would panic on. -/
inductive Panic where
  | attemptToSubtractWithOverflow
  | rangeEndIndexOutOfRange
  deriving DecidableEq, Repr

/-- `negentropy::Error`, as far as the engine raises it. A panic is no error of that type, and is
kept apart from the others. -/
inductive Error where
  | idTooBig
  | frameSizeLimitTooSmall
  | alreadyBuiltInitialMessage
  | initiator
  | nonInitiator
  | unexpectedMode (mode : ℕ)
  | parseEndsPrematurely
  | invalidProtocolVersion
  | unsupportedProtocolVersion
  | badRange
  | panicked (panic : Panic)
  deriving DecidableEq, Repr

/-- `a - b` on `usize`. -/
def checkedSub (a b : ℕ) : Except Error ℕ :=
  if a < b then .error (.panicked .attemptToSubtractWithOverflow) else .ok (a - b)

/-- `&bytes[..end]`. -/
def sliceTo (bytes : List UInt8) (end_ : ℕ) : Except Error (List UInt8) :=
  if bytes.length < end_ then .error (.panicked .rangeEndIndexOutOfRange) else .ok (bytes.take end_)

/-- `Mode`. -/
inductive Mode where
  | skip
  | fingerprint
  | idList
  deriving DecidableEq, Repr

/-- `Mode::as_u64`. -/
def Mode.asU64 : Mode → ℕ
  | .skip => 0
  | .fingerprint => 1
  | .idList => 2

/-- `Mode::try_from`. -/
def Mode.tryFrom : ℕ → Except Error Mode
  | 0 => .ok .skip
  | 1 => .ok .fingerprint
  | 2 => .ok .idList
  | n => .error (.unexpectedMode n)

/-- `get_bytes` -/
def getBytes (n : ℕ) (encoded : List UInt8) : Except Error (List UInt8 × List UInt8) :=
  takeBytes .parseEndsPrematurely n encoded

/-- `decode_var_int`. -/
def decodeVarInt (encoded : List UInt8) : Except Error (ℕ × List UInt8) :=
  VarInt.read ⟨.parseEndsPrematurely, .badRange, .badRange⟩ u64Max 10 0 encoded

/-- `get_byte_array`. -/
def getByteArray (n : ℕ) (encoded : List UInt8) : Except Error (List.Vector UInt8 n × List UInt8) :=
  match readVector n encoded with
  | some r => .ok r
  | none => .error .parseEndsPrematurely

/-- `Negentropy`, with the storage it is built over. -/
structure Negentropy where
  sha256 : List UInt8 → List.Vector UInt8 32
  storage : Snapshot
  frameSizeLimit : ℕ
  isInitiator : Bool := false
  lastTimestampIn : ℕ := 0
  lastTimestampOut : ℕ := 0
  frameSizeLimit_ok : frameSizeLimit = 0 ∨ 4096 ≤ frameSizeLimit

/-- `Negentropy::owned`. -/
def Negentropy.owned (sha256 : List UInt8 → List.Vector UInt8 32) (storage : Snapshot)
    (frameSizeLimit : ℕ) : Except Error Negentropy :=
  if h : frameSizeLimit ≠ 0 ∧ frameSizeLimit < 4096 then .error .frameSizeLimitTooSmall
  else .ok { sha256, storage, frameSizeLimit, frameSizeLimit_ok := by omega }

namespace Negentropy

/-- `negentropy::Bound`: an item, of whose id the first `idLen` bytes count. -/
@[ext]
structure Bound where
  timestamp : ℕ
  id : Id
  idLen : ℕ
  deriving DecidableEq

namespace Bound

/-- A bound at the first bytes of an id, the others being zero. -/
def ofPrefix (timestamp : ℕ) (id : List UInt8) : Bound :=
  ⟨timestamp, ⟨(id ++ List.replicate 32 0).take 32, by simp⟩, id.length⟩

/-- `Bound::with_timestamp_and_id`. -/
def withTimestampAndId (timestamp : ℕ) (id : List UInt8) : Except Error Bound :=
  if idSize < id.length then .error .idTooBig else .ok (ofPrefix timestamp id)

/-- `Bound::with_timestamp`. -/
def withTimestamp (timestamp : ℕ) : Bound := ofPrefix timestamp []

/-- `Bound::new`. -/
def new : Bound := withTimestamp 0

/-- `Bound::from_item`. -/
def fromItem (item : Item) : Bound := ⟨item.timestamp, item.id, idSize⟩

/-- The item of the bound, compared with those of the storage. -/
def position (bound : Bound) : ℕ ×ₗ List ℕ := toLex (bound.timestamp, EventId.key bound.id)

end Bound

/-! ## Encoding -/

/-- `encode_mode`. -/
def encodeMode (mode : Mode) : List UInt8 := encodeVarInt mode.asU64

/-- `encode_bound`, with the timestamp that the next bound is coded against. -/
def encodeBound (lastTimestampOut : ℕ) (bound : Bound) : List UInt8 × ℕ :=
  let boundSlice := (bound.id.toList ++ List.replicate (bound.idLen - idSize) 0).take bound.idLen
  (encodeTimestamp lastTimestampOut bound.timestamp ++ (encodeVarInt bound.idLen ++ boundSlice),
    bound.timestamp)

/-- `get_minimal_bound`. -/
def getMinimalBound (prev curr : Item) : Except Error Bound :=
  if curr.timestamp ≠ prev.timestamp then .ok (Bound.withTimestamp curr.timestamp)
  else do
    let sharedPrefixBytes := sharedPrefixBytes curr.id.toList prev.id.toList
    let currKey ← sliceTo curr.id.toList (sharedPrefixBytes + 1)
    Bound.withTimestampAndId curr.timestamp currKey

/-! ## Decoding -/

/-- `decode_timestamp_in`. The timestamp is the next `last_timestamp_in`. -/
def decodeTimestampIn (lastTimestampIn : ℕ) (encoded : List UInt8) :
    Except Error (ℕ × List UInt8) := do
  let (timestamp, encoded) ← decodeVarInt encoded
  let timestamp := if timestamp = 0 then u64Max else timestamp - 1
  return (satAdd timestamp lastTimestampIn, encoded)

/-- `decode_bound`. -/
def decodeBound (lastTimestampIn : ℕ) (encoded : List UInt8) :
    Except Error (Bound × List UInt8) := do
  let (timestamp, encoded) ← decodeTimestampIn lastTimestampIn encoded
  let (len, encoded) ← decodeVarInt encoded
  let (id, encoded) ← getBytes len encoded
  let bound ← Bound.withTimestampAndId timestamp id
  return (bound, encoded)

/-- `decode_mode`. -/
def decodeMode (encoded : List UInt8) : Except Error (Mode × List UInt8) := do
  let (mode, encoded) ← decodeVarInt encoded
  let mode ← Mode.tryFrom mode
  return (mode, encoded)

/-- The ids of a list, put in a set. -/
def decodeElems : ℕ → Finset Id → List UInt8 → Except Error (Finset Id × List UInt8)
  | 0, theirElems, encoded => .ok (theirElems, encoded)
  | num + 1, theirElems, encoded => do
    let (e, encoded) ← getByteArray 32 encoded
    decodeElems num (insert e theirElems) encoded

/-! ## The storage -/

variable (self : Negentropy)

/-- `check_bounds` of the storage. -/
def checkBounds (begin_ end_ : ℕ) : Except Error Unit :=
  if begin_ ≤ end_ ∧ end_ ≤ self.storage.items.length then .ok () else .error .badRange

/-- `NegentropyStorageBase::fingerprint`. -/
def fingerprint (begin_ end_ : ℕ) : Except Error Fingerprint := do
  self.checkBounds begin_ end_
  return self.storage.fingerprint self.sha256 begin_ end_

/-- `NegentropyStorageBase::iterate`: the items it calls its callback with, while that asks for
more. -/
def iterate (begin_ end_ : ℕ) : Except Error (List Item) := do
  self.checkBounds begin_ end_
  return self.storage.items.extract begin_ end_

/-- `find_lower_bound`, up to the end of the storage. -/
def findLowerBound (first : ℕ) (bound : Bound) : Except Error ℕ := do
  let _count ← checkedSub self.storage.items.length first
  return first + ((self.storage.items.drop first).takeWhile fun item =>
    item.position < bound.position).length

/-- `exceeded_frame_size_limit`. -/
def exceededFrameSizeLimit (n : ℕ) : Except Error Bool :=
  if self.frameSizeLimit = 0 then .ok false
  else do
    let room ← checkedSub self.frameSizeLimit 200
    return decide (room < n)

/-! ## Splitting a range -/

/-- `prev_item` and `curr_item`, the items on both sides of an index. -/
def itemsAround (curr : ℕ) : Except Error (Item × Item) := do
  let before ← checkedSub curr 1
  let items ← self.iterate before (curr + 1)
  return (items.getD 0 defaultItem, items.getD 1 defaultItem)

/-- `next_bound`, after the bucket that ends at `curr`. -/
def nextBound (upper : ℕ) (upperBound : Bound) (curr : ℕ) : Except Error Bound :=
  if curr = upper then .ok upperBound
  else do
    let (prevItem, currItem) ← self.itemsAround curr
    getMinimalBound prevItem currItem

/-- The loop over the buckets in `split_range`. -/
def splitBuckets (numElems upper : ℕ) (upperBound : Bound) :
    List ℕ → (o : List UInt8) → (lastTimestampOut curr : ℕ) → Except Error (List UInt8 × ℕ)
  | [], o, lastTimestampOut, _ => .ok (o, lastTimestampOut)
  | i :: rest, o, lastTimestampOut, curr => do
    let itemsPerBucket := numElems / buckets
    let bucketsWithExtra := numElems % buckets
    let bucketSize := itemsPerBucket + if i < bucketsWithExtra then 1 else 0
    let ourFingerprint ← self.fingerprint curr (curr + bucketSize)
    let curr := curr + bucketSize
    let nextBound ← self.nextBound upper upperBound curr
    let (bound, lastTimestampOut) := encodeBound lastTimestampOut nextBound
    splitBuckets numElems upper upperBound rest
      (o ++ (bound ++ (encodeMode .fingerprint ++ ourFingerprint.toList))) lastTimestampOut curr

/-- `split_range`. -/
def splitRange (lastTimestampOut lower upper : ℕ) (upperBound : Bound) :
    Except Error (List UInt8 × ℕ) := do
  let numElems ← checkedSub upper lower
  if numElems < buckets * 2 then
    let (bound, lastTimestampOut) := encodeBound lastTimestampOut upperBound
    let items ← self.iterate lower upper
    let ids := items.flatMap fun item => item.id.toList
    return (bound ++ (encodeMode .idList ++ (encodeVarInt numElems ++ ids)), lastTimestampOut)
  else
    self.splitBuckets numElems upper upperBound (List.range buckets) [] lastTimestampOut lower

/-- `Negentropy::initiate`. -/
def initiate : Except Error (List UInt8 × Negentropy) :=
  if self.isInitiator then .error .alreadyBuiltInitialMessage
  else do
    let (output, lastTimestampOut) ← self.splitRange self.lastTimestampOut 0
      self.storage.items.length (Bound.withTimestamp u64Max)
    return (protocolVersion :: output, { self with isInitiator := true, lastTimestampOut })

/-! ## Answering a frame -/

/-- The variables of the loop in `reconcile_aux`. -/
structure Locals where
  lastTimestampIn : ℕ
  lastTimestampOut : ℕ
  fullOutput : List UInt8
  prevBound : Bound
  prevIndex : ℕ
  skip : Bool
  haveIds : List Id
  /-- The ids left in a hash set are pushed in no particular order. -/
  needIds : Multiset Id

/-- What the match on the mode leaves to the end of the iteration. -/
structure Turn where
  locals : Locals
  o : List UInt8
  upper : ℕ
  truncated : Bool

/-- `do_skip`: a pending skip is written before what follows it. -/
def doSkip (locals : Locals) : List UInt8 × Locals :=
  if locals.skip then
    let (bound, lastTimestampOut) := encodeBound locals.lastTimestampOut locals.prevBound
    (bound ++ encodeMode .skip, { locals with skip := false, lastTimestampOut })
  else ([], locals)

def onFingerprint (locals : Locals) (lower upper : ℕ) (currBound : Bound)
    (theirFingerprint : Fingerprint) : Except Error Turn := do
  let ourFingerprint ← self.fingerprint lower upper
  if theirFingerprint ≠ ourFingerprint then
    let (skipped, locals) := doSkip locals
    let (split, lastTimestampOut) ← self.splitRange locals.lastTimestampOut lower upper currBound
    return ⟨{ locals with lastTimestampOut }, skipped ++ split, upper, false⟩
  else return ⟨{ locals with skip := true }, [], upper, false⟩

/-- The first `iterate` over a list of ids: what is not in the set is pushed, what is there is
removed from the set. -/
def compareElems (isInitiator : Bool) : List Item → Finset Id × List Id → Finset Id × List Id
  | [], acc => acc
  | item :: rest, (theirElems, haveIds) =>
    if item.id ∉ theirElems then
      compareElems isInitiator rest (theirElems, if isInitiator then haveIds ++ [item.id] else haveIds)
    else compareElems isInitiator rest (theirElems.erase item.id, haveIds)

/-- The second `iterate`: the response ids, their number, and the item that did not fit. -/
def responseLoop (fullOutput : ℕ) : (index : ℕ) → List Item → (responseIds : List UInt8) →
    (numResponseIds : ℕ) → Except Error (List UInt8 × ℕ × Option (Item × ℕ))
  | _, [], responseIds, numResponseIds => .ok (responseIds, numResponseIds, none)
  | index, item :: rest, responseIds, numResponseIds => do
    if ← self.exceededFrameSizeLimit (fullOutput + responseIds.length) then
      return (responseIds, numResponseIds, some (item, index))
    else
      responseLoop fullOutput (index + 1) rest (responseIds ++ item.id.toList) (numResponseIds + 1)

def onIdList (locals : Locals) (lower upper : ℕ) (currBound : Bound) (theirElems : Finset Id) :
    Except Error Turn := do
  let items ← self.iterate lower upper
  let (theirElems, haveIds) := compareElems self.isInitiator items (theirElems, locals.haveIds)
  if self.isInitiator then
    return ⟨{ locals with skip := true, haveIds, needIds := locals.needIds + theirElems.val }, [],
      upper, false⟩
  else
    let (skipped, locals) := doSkip { locals with haveIds }
    let items ← self.iterate lower upper
    let (responseIds, numResponseIds, stopped) ←
      self.responseLoop locals.fullOutput.length lower items [] 0
    -- the remaining range starts at the item that did not fit
    let (endBound, upper) := match stopped with
      | some (item, index) => (Bound.fromItem item, index)
      | none => (currBound, upper)
    let (bound, lastTimestampOut) := encodeBound locals.lastTimestampOut endBound
    let o := skipped ++ (bound ++ (encodeMode .idList ++ (encodeVarInt numResponseIds ++ responseIds)))
    return ⟨{ locals with fullOutput := locals.fullOutput ++ o, lastTimestampOut }, [], upper,
      stopped.isSome⟩

/-- Whether the answer is cut after the range. -/
def cutsFrame (turn : Turn) : Except Error Bool :=
  if turn.truncated then .ok true
  else self.exceededFrameSizeLimit (turn.locals.fullOutput.length + turn.o.length)

/-- The end of an iteration: what was written is kept, or cut off before the limit. -/
def endRange (timestampBeforeRange lower : ℕ) (currBound : Bound) (turn : Turn) :
    Except Error (Party.Flow Locals) := do
  let locals := turn.locals
  if ← self.cutsFrame turn then
    let remaining := if turn.o = [] then turn.upper else lower
    let lastTimestampOut := if turn.o ≠ [] then timestampBeforeRange else locals.lastTimestampOut
    let (boundary, lastTimestampOut) :=
      if ¬ turn.truncated then
        let boundary := if turn.o = [] then currBound else locals.prevBound
        let (bound, lastTimestampOut) := encodeBound lastTimestampOut boundary
        (bound ++ encodeMode .skip, lastTimestampOut)
      else ([], lastTimestampOut)
    let remainingFingerprint ← self.fingerprint remaining self.storage.items.length
    let (bound, lastTimestampOut) := encodeBound lastTimestampOut (Bound.withTimestamp u64Max)
    return .stop { locals with
      fullOutput := locals.fullOutput ++ (boundary ++ (bound ++
        (encodeMode .fingerprint ++ remainingFingerprint.toList)))
      lastTimestampOut }
  else
    return .next { locals with
      fullOutput := locals.fullOutput ++ turn.o, prevIndex := turn.upper, prevBound := currBound }

/-- One iteration of the loop in `reconcile_aux`. -/
def iteration (locals : Locals) (query : List UInt8) :
    Except Error (Party.Flow Locals × List UInt8) := do
  let timestampBeforeRange := locals.lastTimestampOut
  let (currBound, query) ← decodeBound locals.lastTimestampIn query
  let (mode, query) ← decodeMode query
  let locals := { locals with lastTimestampIn := currBound.timestamp }
  let lower := locals.prevIndex
  let upper ← self.findLowerBound locals.prevIndex currBound
  match mode with
  | .skip =>
    let turn := ⟨{ locals with skip := true }, [], upper, false⟩
    let flow ← self.endRange timestampBeforeRange lower currBound turn
    return (flow, query)
  | .fingerprint =>
    let (theirFingerprint, query) ← getByteArray 16 query
    let turn ← self.onFingerprint locals lower upper currBound theirFingerprint
    let flow ← self.endRange timestampBeforeRange lower currBound turn
    return (flow, query)
  | .idList =>
    let (numIds, query) ← decodeVarInt query
    if query.length / idSize < numIds then .error .parseEndsPrematurely
    else
      let (theirElems, query) ← decodeElems numIds ∅ query
      let turn ← self.onIdList locals lower upper currBound theirElems
      let flow ← self.endRange timestampBeforeRange lower currBound turn
      return (flow, query)

/-- `while !query.is_empty()`. Every iteration reads a byte, so the bytes at hand bound them. -/
def reconcileLoop : ℕ → Locals → List UInt8 → Except Error Locals
  | 0, locals, _ => .ok locals
  | fuel + 1, locals, query =>
    if query = [] then .ok locals
    else do
      let (flow, query) ← self.iteration locals query
      match flow with
      | .next locals => reconcileLoop fuel locals query
      | .stop locals => return locals

/-- The variables before the first iteration. -/
def Locals.init : Locals where
  lastTimestampIn := 0
  lastTimestampOut := 0
  fullOutput := [protocolVersion]
  prevBound := Bound.new
  prevIndex := 0
  skip := false
  haveIds := []
  needIds := 0

/-- `reconcile_aux`. -/
def reconcileAux (query : List UInt8) : Except Error Locals := do
  let (bytes, query) ← getByteArray 1 query
  let version := bytes.head
  if ¬ (0x60 ≤ version ∧ version ≤ 0x6F) then .error .invalidProtocolVersion
  else if version ≠ protocolVersion then
    if self.isInitiator then .error .unsupportedProtocolVersion else return Locals.init
  else self.reconcileLoop query.length Locals.init query

/-- The engine after a frame. -/
def afterFrame (locals : Locals) : Negentropy :=
  { self with
    lastTimestampIn := locals.lastTimestampIn, lastTimestampOut := locals.lastTimestampOut }

/-- `Negentropy::reconcile`, the method of a responder. -/
def reconcile (query : List UInt8) : Except Error (List UInt8 × Negentropy) := do
  if self.isInitiator then .error .initiator
  else
    let locals ← self.reconcileAux query
    return (locals.fullOutput, self.afterFrame locals)

/-- `Negentropy::reconcile_with_ids`, the method of an initiator. -/
def reconcileWithIds (query : List UInt8) :
    Except Error (Option (List UInt8) × List Id × Multiset Id × Negentropy) := do
  if ¬ self.isInitiator then .error .nonInitiator
  else
    let locals ← self.reconcileAux query
    let next := if locals.fullOutput.length = 1 then none else some locals.fullOutput
    return (next, locals.haveIds, locals.needIds, self.afterFrame locals)

end Negentropy

end NostrPubsub.Reconcile
