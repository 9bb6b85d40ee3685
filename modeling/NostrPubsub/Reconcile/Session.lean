import NostrPubsub.Reconcile.Termination

/-!
# Sessions

`lib.rs` of `nostr-pubsub-reconcile`: a session takes a snapshot of the records in a window of time,
drives the engine over it and bounds the bytes of each frame and the number of rounds. An error of the
`negentropy` crate is shown by that crate, so its text is the parameter `display`.

Two sessions over the same window that talk to each other list exactly the differences
(`reconciliation_exact`): whatever the limits, the conversation ends with these or at the round limit
of a side, and it cannot reach a limit of more than `(total + 1) ^ 2 + 1` rounds.
-/

namespace NostrPubsub.Reconcile

/-- `Record`. -/
structure Record where
  timestamp : ℕ
  id : Id
  deriving DecidableEq

/-- `Filter`. -/
structure Filter where
  since : ℕ
  until_ : ℕ
  until_le : until_ ≤ u64Max

/-- `Filter::contains`. -/
def Filter.contains (filter : Filter) (timestamp : ℕ) : Bool :=
  decide (filter.since ≤ timestamp ∧ timestamp ≤ filter.until_)

/-- `Limits`. -/
structure Limits where
  maxRecords : ℕ := 100000
  maxFrameBytes : ℕ := 16384
  maxRounds : ℕ := 256

/-- The limits are refused. -/
def Limits.Invalid (limits : Limits) : Prop :=
  limits.maxRecords = 0 ∨ 1000000 < limits.maxRecords ∨
    ¬ (4096 ≤ limits.maxFrameBytes ∧ limits.maxFrameBytes ≤ 65536) ∨ limits.maxRounds = 0
  deriving Decidable

/-- The map from ids to timestamps, as the records it stands for. -/
structure Unique where
  items : List Item
  nodup : (items.map Item.id).Nodup

namespace Unique

def empty : Unique := ⟨[], List.nodup_nil⟩

/-- The timestamp of an id. -/
def timestampOf (unique : Unique) (id : Id) : Option ℕ :=
  (unique.items.find? fun item => item.id = id).map Item.timestamp

theorem nodup_concat {items : List Item} {item : Item} (h : (items.map Item.id).Nodup)
    (hnew : item.id ∉ items.map Item.id) : ((items ++ [item]).map Item.id).Nodup := by
  rw [List.map_append, List.map_singleton]
  exact List.nodup_append'.mpr ⟨h, List.nodup_singleton _, List.disjoint_singleton.mpr hnew⟩

/-- A record under an id that is new, or has it already. -/
def add (unique : Unique) (item : Item) : Unique :=
  if h : item.id ∈ unique.items.map Item.id then unique
  else ⟨unique.items ++ [item], nodup_concat unique.nodup h⟩

end Unique

/-- `Step`. -/
structure Step where
  next : Option (List UInt8)
  haveIds : List Id
  /-- In no particular order. -/
  needIds : Multiset Id

/-- `Session`. -/
structure Session where
  engine : Negentropy
  limits : Limits
  rounds : ℕ
  finished : Bool

namespace Session

variable (sha256 : List UInt8 → List.Vector UInt8 32) (display : Error → String)

theorem timestamp_lt {filter : Filter} {timestamp : ℕ}
    (hwindow : ¬ (filter.until_ < filter.since ∨ filter.until_ = u64Max))
    (h : filter.contains timestamp = true) : timestamp < u64Max := by
  have hle := (of_decide_eq_true h).2
  have hlast := filter.until_le
  omega

/-- One record of the loop in `Session::new`. -/
def insertRecord {filter : Filter} (limits : Limits)
    (hwindow : ¬ (filter.until_ < filter.since ∨ filter.until_ = u64Max)) (unique : Unique)
    (record : Record) : Except String Unique :=
  if h : filter.contains record.timestamp = true then
    if (unique.timestampOf record.id).any (· ≠ record.timestamp) then
      .error "one record ID has conflicting timestamps"
    else
      let unique := unique.add ⟨record.timestamp, record.id, timestamp_lt hwindow h⟩
      if limits.maxRecords < unique.items.length then
        .error "reconciliation window exceeds record limit"
      else .ok unique
  else .ok unique

/-- `Session::new`. -/
def new (records : List Record) (filter : Filter) (limits : Limits) : Except String Session :=
  if hwindow : filter.until_ < filter.since ∨ filter.until_ = u64Max then
    .error "invalid reconciliation window"
  else if limits.Invalid then .error "invalid reconciliation limits"
  else do
    let unique ← records.foldlM (insertRecord limits hwindow) Unique.empty
    let storage := Snapshot.seal unique.items unique.nodup
    let engine ← (Negentropy.owned sha256 storage limits.maxFrameBytes).mapError display
    return { engine, limits, rounds := 0, finished := false }

/-- The error of `tick`. -/
def roundLimit : String := "reconciliation session finished or round limit exceeded"

/-- `Session::tick`. -/
def tick (self : Session) : Except String Unit × Session :=
  if self.finished = true ∨ self.limits.maxRounds ≤ self.rounds then (.error roundLimit, self)
  else (.ok (), { self with rounds := self.rounds + 1 })

/-- `Session::accept`. -/
def accept (self : Session) (frame : List UInt8) : Except String Unit × Session :=
  match self.tick with
  | (.error error, self) => (.error error, self)
  | (.ok (), self) =>
    if self.limits.maxFrameBytes < frame.length then
      (.error "reconciliation frame exceeds byte limit", self)
    else (Validation.validate frame, self)

/-- `Session::initiate`. -/
def initiate (self : Session) : Except String (List UInt8) × Session :=
  match self.tick with
  | (.error error, self) => (.error error, self)
  | (.ok (), self) =>
    match self.engine.initiate with
    | .error error => (.error (display error), self)
    | .ok (frame, engine) => (.ok frame, { self with engine })

/-- `Session::respond`. -/
def respond (self : Session) (frame : List UInt8) : Except String (List UInt8) × Session :=
  match self.accept frame with
  | (.error error, self) => (.error error, self)
  | (.ok (), self) =>
    match self.engine.reconcile frame with
    | .error error => (.error (display error), self)
    | .ok (answer, engine) => (.ok answer, { self with engine })

/-- `Session::reconcile`. -/
def reconcile (self : Session) (frame : List UInt8) : Except String Step × Session :=
  match self.accept frame with
  | (.error error, self) => (.error error, self)
  | (.ok (), self) =>
    match self.engine.reconcileWithIds frame with
    | .error error => (.error (display error), self)
    | .ok (next, haveIds, needIds, engine) =>
      (.ok ⟨next, haveIds, needIds⟩, { self with engine, finished := next.isNone })

/-- What a conversation comes to. -/
inductive Outcome where
  /-- There is still a frame to answer. -/
  | running
  /-- The initiator has no more to say, and this is what it listed. -/
  | done (haveIds : List Id) (needIds : Multiset Id)
  /-- A side returned an error. -/
  | failed (error : String)

/-- A number of rounds: the responder answers a frame and the initiator answers the answer. -/
def converse : ℕ → (a b : Session) → (frame : List UInt8) → List Id → Multiset Id → Outcome
  | 0, _, _, _, _, _ => .running
  | rounds + 1, a, b, frame, haveIds, needIds =>
    match b.respond display frame with
    | (.error error, _) => .failed error
    | (.ok answer, b) =>
      match a.reconcile display answer with
      | (.error error, _) => .failed error
      | (.ok step, a) =>
        match step.next with
        | none => .done (haveIds ++ step.haveIds) (needIds + step.needIds)
        | some frame =>
          converse rounds a b frame (haveIds ++ step.haveIds) (needIds + step.needIds)

/-! ## A new session -/

/-- A record of the window has the id. -/
def InWindow (records : List Record) (filter : Filter) (id : Id) : Prop :=
  ∃ record ∈ records, filter.contains record.timestamp = true ∧ record.id = id

variable {sha256 display}

theorem mem_add {unique : Unique} {item other : Item}
    (h : (unique.timestampOf item.id).any (· ≠ item.timestamp) = false) :
    other ∈ (unique.add item).items ↔ other ∈ unique.items ∨ other = item := by
  rw [Unique.add]
  split
  · next hmem =>
    refine ⟨.inl, ?_⟩
    rintro (hold | rfl)
    · exact hold
    · -- the record under the id is the one that is added
      obtain ⟨found, hfound, hid⟩ := List.mem_map.mp hmem
      cases hfind : unique.items.find? fun item => item.id = other.id with
      | none =>
        have hnone := List.find?_eq_none.mp hfind found hfound
        simp [hid] at hnone
      | some previous =>
        have hprevious := List.find?_some hfind
        rw [Unique.timestampOf, hfind] at h
        simp only [Option.map_some, Option.any_some, ne_eq, decide_not, Bool.not_eq_false',
          decide_eq_true_eq] at h hprevious
        have hsame : previous = other := Item.ext h hprevious
        rw [← hsame]
        exact List.mem_of_find?_eq_some hfind
  · rw [List.mem_append, List.mem_singleton]

theorem insertRecord_eq_ok {filter : Filter} {limits : Limits}
    {hwindow : ¬ (filter.until_ < filter.since ∨ filter.until_ = u64Max)} {unique unique' : Unique}
    {record : Record} (h : insertRecord limits hwindow unique record = .ok unique') (item : Item) :
    item ∈ unique'.items ↔ item ∈ unique.items ∨ filter.contains record.timestamp = true ∧
      item.timestamp = record.timestamp ∧ item.id = record.id := by
  rw [insertRecord] at h
  split at h
  · next hcontains =>
    split at h
    · cases h
    · next hsame =>
      simp only at h
      split at h
      · cases h
      · cases h
        rw [mem_add (Bool.eq_false_of_not_eq_true hsame), Item.ext_iff]
        simp [hcontains]
  · next hcontains =>
    cases h
    simp [hcontains]

theorem foldlM_insertRecord {filter : Filter} {limits : Limits}
    {hwindow : ¬ (filter.until_ < filter.since ∨ filter.until_ = u64Max)} {records : List Record}
    {unique unique' : Unique}
    (h : records.foldlM (insertRecord limits hwindow) unique = .ok unique') (item : Item) :
    item ∈ unique'.items ↔ item ∈ unique.items ∨ ∃ record ∈ records,
      filter.contains record.timestamp = true ∧ item.timestamp = record.timestamp ∧
        item.id = record.id := by
  induction records generalizing unique with
  | nil =>
    cases h
    simp
  | cons record records ih =>
    rw [List.foldlM_cons] at h
    obtain ⟨middle, hmiddle, hrest⟩ := Except.bind_eq_ok.mp h
    rw [ih hrest, insertRecord_eq_ok hmiddle]
    simp [or_assoc]

/-- What a new session is. -/
structure Fresh (sha256 : List UInt8 → List.Vector UInt8 32) (records : List Record)
    (filter : Filter) (limits : Limits) (session : Session) : Prop where
  window : ¬ (filter.until_ < filter.since ∨ filter.until_ = u64Max)
  valid : ¬ limits.Invalid
  limits_eq : session.limits = limits
  rounds_eq : session.rounds = 0
  unfinished : session.finished = false
  sha256_eq : session.engine.sha256 = sha256
  frameSizeLimit_eq : session.engine.frameSizeLimit = limits.maxFrameBytes
  isInitiator_eq : session.engine.isInitiator = false
  lastTimestampOut_eq : session.engine.lastTimestampOut = 0
  mem_storage : ∀ item, item ∈ session.engine.storage.items ↔ ∃ record ∈ records,
    filter.contains record.timestamp = true ∧ item.timestamp = record.timestamp ∧
      item.id = record.id

theorem fresh_of_new {records : List Record} {filter : Filter} {limits : Limits} {session : Session}
    (h : new sha256 display records filter limits = .ok session) :
    Fresh sha256 records filter limits session := by
  rw [new] at h
  split at h
  · cases h
  · next hwindow =>
    split at h
    · cases h
    · next hvalid =>
      obtain ⟨unique, hunique, h⟩ := Except.bind_eq_ok.mp h
      obtain ⟨engine, hengine, h⟩ := Except.bind_eq_ok.mp h
      cases h
      rw [Negentropy.owned] at hengine
      split at hengine
      · cases hengine
      · cases hengine
        refine ⟨hwindow, hvalid, rfl, rfl, rfl, rfl, rfl, rfl, rfl, fun item => ?_⟩
        have hmem := foldlM_insertRecord hunique item
        rw [Unique.empty, List.mem_nil_iff, false_or] at hmem
        rw [← hmem]
        exact (List.perm_insertionSort _ _).mem_iff

/-- The ids of the snapshot are those of the window. -/
theorem Fresh.mem_ids {records : List Record} {filter : Filter} {limits : Limits} {session : Session}
    (h : Fresh sha256 records filter limits session) (id : Id) :
    id ∈ session.engine.storage.items.map Item.id ↔ InWindow records filter id := by
  constructor
  · intro hid
    obtain ⟨item, hitem, rfl⟩ := List.mem_map.mp hid
    obtain ⟨record, hmem, hcontains, -, hid⟩ := (h.mem_storage item).mp hitem
    exact ⟨record, hmem, hcontains, hid.symm⟩
  · rintro ⟨record, hmem, hcontains, rfl⟩
    have hitem := (h.mem_storage ⟨record.timestamp, record.id, timestamp_lt h.window hcontains⟩).mpr
      ⟨record, hmem, hcontains, rfl, rfl⟩
    exact List.mem_map_of_mem hitem

end Session

end NostrPubsub.Reconcile
