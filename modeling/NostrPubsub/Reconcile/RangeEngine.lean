import NostrPubsub.Reconcile.Snapshot

/-!
# Reconciliation over ranges

What one party does with the ranges of a frame, before they become bytes: `Party.step` answers
one range, `Party.reply` a whole frame. Both engines of the repository compute this function on
the bytes of a frame, each with its own bookkeeping of coded timestamps and pending output.
-/

namespace NostrPubsub.Reconcile

/-- One side of a conversation. -/
structure Party where
  sha256 : List UInt8 → List.Vector UInt8 32
  snapshot : Snapshot
  frameSizeLimit : ℕ
  isInitiator : Bool

/-- `BUCKETS`. -/
def buckets : ℕ := 16

/-- The record that stands in for one that is not there. -/
def defaultItem : Item := ⟨0, List.Vector.replicate 32 0, by decide⟩

/-- The size of the bucket `i` of a range. -/
def bucketSize (numElems i : ℕ) : ℕ :=
  numElems / buckets + if i < numElems % buckets then 1 else 0

/-- The first `count` buckets together. -/
theorem sum_bucketSize (numElems count : ℕ) : ((List.range count).map (bucketSize numElems)).sum =
    count * (numElems / buckets) + min count (numElems % buckets) := by
  induction count with
  | zero => simp
  | succ count ih =>
    rw [List.range_succ, List.map_append, List.sum_append, ih, List.map_singleton,
      List.sum_singleton, bucketSize, Nat.succ_mul]
    split <;> omega

/-- The buckets hold all the elements. -/
theorem sum_bucketSize_buckets (numElems : ℕ) :
    ((List.range buckets).map (bucketSize numElems)).sum = numElems := by
  have hrest : numElems % buckets < buckets := Nat.mod_lt _ (by decide)
  rw [sum_bucketSize, Nat.min_eq_right hrest.le, Nat.div_add_mod]

namespace Party

variable (party : Party)

/-- Less than 200 bytes of the frame are left. -/
def ExceededFrameSizeLimit (n : ℕ) : Prop :=
  party.frameSizeLimit ≠ 0 ∧ party.frameSizeLimit - 200 < n
  deriving Decidable

/-- The ids of the records between two indices. -/
def ids (lower upper : ℕ) : List Id := (party.snapshot.items.extract lower upper).map Item.id

def fingerprint (lower upper : ℕ) : Fingerprint :=
  party.snapshot.fingerprint party.sha256 lower upper

/-- The bound of the bucket that ends at `curr`, in a range of records that ends at `upper`. -/
def bucketBound (upper : ℕ) (upperBound : Bound) (curr : ℕ) : Bound :=
  if curr = upper then upperBound
  else
    minimalBound (party.snapshot.items.getD (curr - 1) defaultItem)
      (party.snapshot.items.getD curr defaultItem)

/-- The buckets with the numbers given, the first of them from `curr` on. -/
def splitBuckets (numElems upper : ℕ) (upperBound : Bound) : List ℕ → ℕ → List Range
  | [], _ => []
  | i :: rest, curr =>
    let next := curr + bucketSize numElems i
    ⟨party.bucketBound upper upperBound next, .fingerprint (party.fingerprint curr next)⟩
      :: splitBuckets numElems upper upperBound rest next

/-- `split_range`: few records are listed, many are fingerprinted in 16 buckets. -/
def splitRange (lower upper : ℕ) (upperBound : Bound) : List Range :=
  if upper - lower < buckets * 2 then [⟨upperBound, .idList (party.ids lower upper)⟩]
  else party.splitBuckets (upper - lower) upper upperBound (List.range buckets) lower

/-! ## Answering a frame -/

/-- What was made of the ranges read so far. -/
structure Progress where
  /-- The ranges of the answer. -/
  output : List Range
  /-- The bound of the last range read. -/
  prevBound : Bound
  /-- Nothing was written for the last range read. -/
  skip : Bool
  haveIds : List Id
  /-- The ids to ask for come out of a hash set in no particular order. -/
  needIds : Multiset Id

def Progress.init : Progress := ⟨[], Bound.zero, false, [], 0⟩

/-- Whether the next range is read. -/
inductive Flow (σ : Type) where
  | next (state : σ)
  | stop (state : σ)

/-- The ranges before a written one that nothing was written for. -/
def Progress.pendingSkip (progress : Progress) : List Range :=
  if progress.skip then [⟨progress.prevBound, .skip⟩] else []

/-- The index of the first record after the ranges read so far. -/
def lower (progress : Progress) : ℕ := party.snapshot.cut progress.prevBound.position

/-- The fingerprint of all records from an index on. -/
def tail (remaining : ℕ) : Range :=
  ⟨Bound.infinity, .fingerprint (party.fingerprint remaining party.snapshot.items.length)⟩

/-- The end of an iteration: append the ranges `o`, or replace them by the tail. -/
def advance (progress : Progress) (currBound : Bound) (o : List Range) : Flow Progress :=
  if party.ExceededFrameSizeLimit (encodeFrame (progress.output ++ o)).length then
    let boundary := if o = [] then currBound else progress.prevBound
    let remaining := party.snapshot.cut boundary.position
    .stop { progress with output := progress.output ++ [⟨boundary, .skip⟩, party.tail remaining] }
  else .next { progress with output := progress.output ++ o, prevBound := currBound }

/-- The number of ids that fit behind `fullOutput` bytes, `taken` being taken already. -/
def fittingIds (fullOutput : ℕ) : ℕ → List Id → ℕ
  | taken, [] => taken
  | taken, _ :: rest =>
    if party.ExceededFrameSizeLimit (fullOutput + idSize * taken) then taken
    else fittingIds fullOutput (taken + 1) rest

/-- The responder's answer to a list of ids: its own. -/
def answerIds (progress : Progress) (currBound : Bound) : Flow Progress :=
  let lower := party.lower progress
  let ids := party.ids lower (party.snapshot.cut currBound.position)
  let fitting := party.fittingIds (encodeFrame progress.output).length 0 ids
  let listed : Bound → List Range := fun endBound =>
    progress.output ++ progress.pendingSkip ++ [⟨endBound, .idList (ids.take fitting)⟩]
  if fitting < ids.length then
    let item := party.snapshot.items.getD (lower + fitting) defaultItem
    .stop { progress with
      output := listed item.toBound ++ [party.tail (lower + fitting)], skip := false }
  else
    party.advance { progress with output := listed currBound, skip := false } currBound []

/-- The initiator's use of a list of ids: what the other side lacks, and what it has. -/
def learnIds (progress : Progress) (currBound : Bound) (theirs : List Id) : Progress :=
  let ids := party.ids (party.lower progress) (party.snapshot.cut currBound.position)
  { progress with
    skip := true
    haveIds := progress.haveIds ++ ids.filter (· ∉ theirs)
    needIds := progress.needIds + (theirs.toFinset.filter (· ∉ ids)).val }

/-- One range of a frame. -/
def step (progress : Progress) (range : Range) : Flow Progress :=
  let lower := party.lower progress
  let upper := party.snapshot.cut range.bound.position
  match range.payload with
  | .skip => party.advance { progress with skip := true } range.bound []
  | .fingerprint theirFingerprint =>
    if theirFingerprint = party.fingerprint lower upper then
      party.advance { progress with skip := true } range.bound []
    else
      party.advance { progress with skip := false } range.bound
        (progress.pendingSkip ++ party.splitRange lower upper range.bound)
  | .idList theirs =>
    if party.isInitiator then
      party.advance (party.learnIds progress range.bound theirs) range.bound []
    else party.answerIds progress range.bound

/-- All ranges of a frame, up to the one where the answer is cut. -/
def steps (progress : Progress) : List Range → Progress
  | [] => progress
  | range :: ranges =>
    match party.step progress range with
    | .next progress' => steps progress' ranges
    | .stop progress' => progress'

/-- The answer to a frame. -/
def reply (ranges : List Range) : Progress := party.steps Progress.init ranges

/-- The ranges of the first frame. -/
def initiate : List Range := party.splitRange 0 party.snapshot.items.length Bound.infinity

end Party

end NostrPubsub.Reconcile
