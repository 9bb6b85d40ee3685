import NostrPubsub.Reconcile.BrowserStorage

/-!
# The session of the browser

`index.ts` of `nostr-pubsub-reconcile`: one class holds the snapshot, the limits and the loop over a
frame. It writes the ranges of one iteration into a writer of its own and takes them over at the end,
where the native engine saves and restores the base of its coded timestamps.
-/

namespace NostrPubsub.Reconcile.Browser

/-- `ReconciliationRecord`. -/
structure ReconciliationRecord where
  timestamp : ℤ
  id : List UInt8

/-- `ReconciliationFilter`. -/
structure ReconciliationFilter where
  since : ℤ
  until_ : ℤ

/-- A number that is given as a limit: an integer, or a fraction, an infinity or `NaN`. -/
inductive Number where
  | integer (n : ℤ)
  | other

/-- `ReconciliationLimits`. -/
structure ReconciliationLimits where
  maxRecords : Option Number := none
  maxFrameBytes : Option Number := none
  maxRounds : Option Number := none

/-- `ReconciliationStep`. -/
structure ReconciliationStep where
  next : Option (List UInt8)
  haveIds : List (List UInt8)
  needIds : List (List UInt8)

/-- `Reconciliation`. -/
structure Reconciliation where
  storage : Storage
  frameBytes : ℕ
  maxRounds : ℕ
  rounds : ℕ := 0
  initiator : Bool := false
  finished : Bool := false
  busy : Bool := false

/-- The length of the longest common beginning. Two equal arrays have no first difference, so that
the loop over them does not end. -/
def sharedBytes : List UInt8 → List UInt8 → Except String ℕ
  | a :: as, b :: bs => if a = b then return (← sharedBytes as bs) + 1 else .ok 0
  | [], [] => .error "endless loop"
  | _, _ => .ok 0

/-- The elements of a set are compared byte by byte. -/
scoped instance lawfulBEq_bytes : LawfulBEq (List UInt8) := inferInstance

/-- `theirs.set(key(id), id)`. -/
def setId (theirs : List (List UInt8)) (id : List UInt8) : List (List UInt8) :=
  if id ∈ theirs then theirs else theirs ++ [id]

/-- The initiator's loop over its own ids: what the other side has drops out, the rest is pushed. -/
def deleteIds : List (List UInt8) → (theirs haveIds : List (List UInt8)) →
    List (List UInt8) × List (List UInt8)
  | [], theirs, haveIds => (theirs, haveIds)
  | id :: rest, theirs, haveIds =>
    if id ∈ theirs then deleteIds rest (theirs.erase id) haveIds
    else deleteIds rest theirs (haveIds ++ [id])

namespace Reconciliation

/-- The error of the `constructor` for its filter and its limits. -/
def invalidFilterOrLimits : String := "invalid reconciliation filter or limits"

/-- The `constructor` of `Reconciliation`. -/
def new (records : List ReconciliationRecord) (filter : ReconciliationFilter)
    (limits : ReconciliationLimits) : Except String Reconciliation :=
  match limits.maxRecords.getD (.integer 100000), limits.maxFrameBytes.getD (.integer 16384),
    limits.maxRounds.getD (.integer 256) with
  | .integer maxRecords, .integer frameBytes, .integer maxRounds =>
    if filter.since < 0 ∨ (u64Max : ℤ) ≤ filter.until_ ∨ filter.until_ < filter.since ∨
        maxRecords < 1 ∨ 1000000 < maxRecords ∨ frameBytes < 4096 ∨ 65536 < frameBytes ∨
        maxRounds < 1 ∨ 1000000 < records.length then
      .error invalidFilterOrLimits
    else if ∃ record ∈ records, record.id.length ≠ 32 ∨ record.timestamp < 0 ∨
        (u64Max : ℤ) ≤ record.timestamp then
      .error "invalid record"
    else do
      let records := records.map fun record => ⟨record.timestamp.toNat, record.id⟩
      let storage ← Storage.new records filter.since filter.until_ maxRecords.toNat
      return { storage, frameBytes := frameBytes.toNat, maxRounds := maxRounds.toNat }
  | _, _, _ => .error invalidFilterOrLimits

variable (sha256 : List UInt8 → List.Vector UInt8 32) (self : Reconciliation)

/-! ## Splitting a range -/

/-- The ids of the records between two indices. -/
def idsBetween (lower upper : ℕ) : Except String (List (List UInt8)) :=
  (List.range' lower (upper - lower)).mapM fun i => return (← self.storage.item i).id

/-- `next`, the bound of the bucket before `cursor`. -/
def nextBound (upper : ℕ) (bound : Bound) (cursor : ℕ) : Except String Bound :=
  if cursor = upper then .ok bound
  else do
    let before ← if cursor = 0 then .error undefinedAccess else self.storage.item (cursor - 1)
    let after ← self.storage.item cursor
    if before.timestamp = after.timestamp then
      return ⟨after.timestamp, after.id.take ((← sharedBytes before.id after.id) + 1)⟩
    else return ⟨after.timestamp, []⟩

/-- The loop over the buckets in `split`. -/
def splitBuckets (count upper : ℕ) (bound : Bound) :
    List ℕ → (cursor : ℕ) → Writer → Except String Writer
  | [], _, out => .ok out
  | i :: rest, cursor, out => do
    let size := count / 16 + if i < count % 16 then 1 else 0
    let fingerprint ← self.storage.fingerprint sha256 cursor (cursor + size)
    let cursor := cursor + size
    let next ← self.nextBound upper bound cursor
    let out ← out.bound next
    let out ← out.varint 1
    splitBuckets count upper bound rest cursor (out.append fingerprint)

/-- `Reconciliation.split`. -/
def split (lower upper : ℕ) (bound : Bound) (out : Writer) : Except String Writer := do
  let count : ℤ := upper - lower
  if count < 32 then
    let out ← out.bound bound
    let out ← out.varint 2
    let out ← out.varint count
    let ids ← self.idsBetween lower upper
    return out.append ids.flatten
  else self.splitBuckets sha256 count.toNat upper bound (List.range 16) lower out

/-! ## Answering a frame -/

/-- The variables of the loop in `process`. -/
structure Locals where
  input : Reader
  output : Writer
  haveIds : List (List UInt8)
  needIds : List (List UInt8)
  previous : Bound
  previousIndex : ℕ
  skip : Bool

/-- What the branches on the mode leave to the end of the iteration. -/
structure Turn where
  locals : Locals
  out : Writer
  upper : ℕ
  truncated : Bool

/-- `flushSkip`. -/
def flushSkip (locals : Locals) (out : Writer) : Except String (Locals × Writer) :=
  if locals.skip then do
    let out ← out.bound locals.previous
    let out ← out.varint 0
    return ({ locals with skip := false }, out)
  else .ok (locals, out)

/-- `mode === 1n`. -/
def onFingerprint (locals : Locals) (out : Writer) (lower upper : ℕ) (current : Bound) :
    Except String Turn := do
  let (theirs, input) ← locals.input.take 16
  let locals := { locals with input }
  let ours ← self.storage.fingerprint sha256 lower upper
  if compareIds theirs ours ≠ 0 then
    let (locals, out) ← flushSkip locals out
    let out ← self.split sha256 lower upper current out
    return ⟨locals, out, upper, false⟩
  else return ⟨{ locals with skip := true }, out, upper, false⟩

/-- The loop that takes the ids of a list. Only the initiator keeps them. -/
def takeIds : ℕ → (theirs : List (List UInt8)) → Reader →
    Except String (List (List UInt8) × Reader)
  | 0, theirs, input => .ok (theirs, input)
  | count + 1, theirs, input => do
    let (id, input) ← input.take 32
    takeIds count (if self.initiator then setId theirs id else theirs) input

/-- The loop over the ids of the answer: those that fit, and the record that does not, with its
index. -/
def answerLoop (outputLength : ℕ) : List ℕ → (ids : List (List UInt8)) →
    Except String (List (List UInt8) × Option (Bound × ℕ))
  | [], ids => .ok (ids, none)
  | i :: rest, ids => do
    let item ← self.storage.item i
    if self.frameBytes - 200 < outputLength + ids.length * 32 then return (ids, some (item, i))
    else answerLoop outputLength rest (ids ++ [item.id])

/-- `mode === 2n`. -/
def onIdList (locals : Locals) (out : Writer) (lower upper : ℕ) (current : Bound) :
    Except String Turn := do
  let (count, input) ← locals.input.varint
  if input.bytes.length / 32 < count then .error "truncated ID list"
  else
    let (theirs, input) ← self.takeIds count [] input
    let locals := { locals with input }
    if self.initiator then
      let ids ← self.idsBetween lower upper
      let (theirs, haveIds) := deleteIds ids theirs locals.haveIds
      return ⟨{ locals with skip := true, haveIds, needIds := locals.needIds ++ theirs }, out, upper,
        false⟩
    else
      let (locals, out) ← flushSkip locals out
      let (ids, cut) ←
        self.answerLoop locals.output.bytes.length (List.range' lower (upper - lower)) []
      let (endBound, upper) := cut.getD (current, upper)
      let out ← out.bound endBound
      let out ← out.varint 2
      let out ← out.varint ids.length
      let out := out.append ids.flatten
      let output : Writer := ⟨locals.output.bytes ++ out.bytes, out.timestamp⟩
      return ⟨{ locals with output }, { out with bytes := [] }, upper, cut.isSome⟩

/-- The end of an iteration: what was written is taken over, or the answer is cut. -/
def endRange (lower : ℕ) (current : Bound) (turn : Turn) : Except String (Party.Flow Locals) := do
  let { locals, out, upper, truncated } := turn
  if truncated ∨ self.frameBytes - 200 < locals.output.bytes.length + out.bytes.length then
    let output ←
      if truncated then pure locals.output
      else do
        let output ← locals.output.bound (if out.bytes = [] then current else locals.previous)
        output.varint 0
    let output ← output.bound Bound.infinity
    let output ← output.varint 1
    let fingerprint ← self.storage.fingerprint sha256 (if out.bytes = [] then upper else lower)
      self.storage.items.length
    return .stop { locals with output := output.append fingerprint }
  else
    return .next { locals with
      output := ⟨locals.output.bytes ++ out.bytes, out.timestamp⟩
      previous := current, previousIndex := upper }

/-- One iteration of the loop in `process`. -/
def iteration (locals : Locals) : Except String (Party.Flow Locals) := do
  let (current, input) ← locals.input.bound
  if compare current locals.previous < 0 then .error "unordered ranges"
  else
    let (mode, input) ← input.varint
    let locals := { locals with input }
    let lower := locals.previousIndex
    let upper := self.storage.lowerBound locals.previousIndex current
    let out : Writer := { timestamp := locals.output.timestamp }
    match mode with
    | 0 => self.endRange sha256 lower current ⟨{ locals with skip := true }, out, upper, false⟩
    | 1 =>
      let turn ← self.onFingerprint sha256 locals out lower upper current
      self.endRange sha256 lower current turn
    | 2 =>
      let turn ← self.onIdList locals out lower upper current
      self.endRange sha256 lower current turn
    | _ => .error "invalid reconciliation mode"

/-- `while (input.remaining)`. Every iteration takes a byte, so the bytes at hand bound them. -/
def processLoop : ℕ → Locals → Except String Locals
  | 0, locals => .ok locals
  | fuel + 1, locals =>
    if locals.input.bytes = [] then .ok locals
    else do
      match ← self.iteration sha256 locals with
      | .next locals => processLoop fuel locals
      | .stop locals => return locals

/-- The variables before the first iteration. -/
def Locals.init (input : Reader) : Locals where
  input := input
  output := { bytes := [0x61] }
  haveIds := []
  needIds := []
  previous := Bound.zero
  previousIndex := 0
  skip := false

/-- `Reconciliation.process`, after `enter`. -/
def processFrame (frame : List UInt8) : Except String ReconciliationStep :=
  if self.frameBytes < frame.length then .error "frame exceeds byte limit"
  else do
    validateFrame frame
    let (version, input) ← Reader.take { bytes := frame } 1
    if version ≠ [0x61] then .error "unsupported Negentropy version"
    else
      let locals ← self.processLoop sha256 input.bytes.length (Locals.init input)
      let next := if locals.output.bytes.length = 1 ∧ self.initiator then none
        else some locals.output.bytes
      return ⟨next, locals.haveIds, locals.needIds⟩

/-! ## The methods -/

/-- `Reconciliation.enter`. -/
def enter : Except String Reconciliation :=
  if self.busy ∨ self.finished ∨ self.maxRounds ≤ self.rounds then
    .error "session busy, finished or round limit exceeded"
  else .ok { self with rounds := self.rounds + 1, busy := true }

/-- `Reconciliation.process`. -/
def process (frame : List UInt8) : Except String ReconciliationStep × Reconciliation :=
  match self.enter with
  | .error error => (.error error, self)
  | .ok self =>
    match self.processFrame sha256 frame with
    | .error error => (.error error, { self with busy := false })
    | .ok step => (.ok step, { self with finished := step.next.isNone, busy := false })

/-- The first frame. -/
def firstFrame (fingerprintFirst : Bool) : Except String (List UInt8) := do
  let out : Writer := { bytes := [0x61] }
  let count := self.storage.items.length
  if fingerprintFirst ∧ 0 < count then
    let out ← out.bound Bound.infinity
    let out ← out.varint 1
    let fingerprint ← self.storage.fingerprint sha256 0 count
    return (out.append fingerprint).bytes
  else
    let out ← self.split sha256 0 count Bound.infinity out
    return out.bytes

/-- `Reconciliation.initiate`. -/
def initiate (fingerprintFirst : Bool := false) : Except String (List UInt8) × Reconciliation :=
  if self.initiator then (.error "already initiated", self)
  else
    match self.enter with
    | .error error => (.error error, self)
    | .ok self => (self.firstFrame sha256 fingerprintFirst,
        { self with initiator := true, busy := false })

/-- `Reconciliation.respond`. -/
def respond (frame : List UInt8) : Except String (Option (List UInt8)) × Reconciliation :=
  if self.initiator then (.error "initiator cannot respond", self)
  else
    let (step, self) := self.process sha256 frame
    (step.map ReconciliationStep.next, self)

/-- `Reconciliation.reconcile`. -/
def reconcile (frame : List UInt8) : Except String ReconciliationStep × Reconciliation :=
  if ¬ self.initiator then (.error "session is not initiator", self)
  else self.process sha256 frame

end Reconciliation

end NostrPubsub.Reconcile.Browser
