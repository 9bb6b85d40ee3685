import NostrPubsub.Store.Retained

/-!
# The file store

The event bus of `nostr-pubsub/src/file_store.rs` on a unix system: a `RetainedEvents` in
memory and a JSON snapshot of it at a path. `publish` inserts into a clone, writes the
snapshot of the clone to a temporary file, renames it to the path, replaces the memory, and
syncs the directory. Each of these steps may fail; the outcomes are an argument.
-/

namespace NostrPubsub

variable {nostr : NostrCrate}

/-- `SOURCE_PRIORITY_LOCAL_INDEX`. -/
def sourcePriorityLocalIndex : ℤ := 300

/-- The entries of a JSON array, with commas between them. -/
def joinEntries : List (List UInt8) → List UInt8
  | [] => []
  | [entry] => entry
  | entry :: next :: rest => entry ++ utf8Bytes "," ++ joinEntries (next :: rest)

/-- `serde_json::to_vec` of a `Snapshot` of version 1. -/
def snapshotJson (nostr : NostrCrate) (events : List Event) : Except String (List UInt8) := do
  let entries ← events.mapM nostr.toJson
  pure (utf8Bytes "\x7b\"version\":1,\"events\":[" ++ joinEntries entries ++ utf8Bytes "]\x7d")

/-- What the file system answers while a snapshot is written. -/
structure WriteOutcomes where
  /-- `NamedTempFile::new_in`. -/
  create : Except String Unit
  /-- `write_all`. -/
  write : Except String Unit
  /-- `sync_all` of the temporary file. -/
  sync : Except String Unit
  /-- `persist`, the rename. -/
  persist : Except String Unit
  /-- Opening and syncing the directory. -/
  syncDirectory : Except String Unit

/-- A `FileEventBus` with its file. The memory is `None` once the bus is closed. -/
structure FileEventBus (nostr : NostrCrate) where
  events : Option (RetainedEvents nostr)
  file : Option (List UInt8)

/-- `Snapshot<serde_json::Value>` with `serde_json::from_value` of each entry: an entry that is
no event is `none`. -/
structure StoredSnapshot where
  version : ℕ
  events : List (Option Event)

namespace FileEventBus

/-- The part of `publish` from the temporary file on. -/
def commit (self : FileEventBus nostr) (candidate : RetainedEvents nostr) (bytes : List UInt8)
    (io : WriteOutcomes) : Except PubsubError PublishReport × FileEventBus nostr :=
  -- The temporary file is dropped when one of these fails.
  match (do io.create; io.write; io.sync; io.persist : Except String Unit) with
  | .error error => (.error (.storage error), self)
  | .ok () =>
    let committed := { events := some candidate, file := some bytes }
    match io.syncDirectory with
    | .error error => (.error (.storage error), committed)
    | .ok () =>
      (.ok { accepted := true, priority := sourcePriorityLocalIndex, reason := none }, committed)

/-- `FileEventBus::publish`. -/
def publish (self : FileEventBus nostr) (event : VerifiedEvent nostr) (now : ℕ)
    (io : WriteOutcomes) : Except PubsubError PublishReport × FileEventBus nostr :=
  match self.events with
  | none => (.error (.storage "event store is closed"), self)
  | some events =>
    let inserted := events.insert event now
    if inserted.1 then
      match snapshotJson nostr (inserted.2.snapshot now) with
      | .error error => (.error (.storage error), self)
      | .ok bytes =>
        if maxRetainedSnapshotBytes < bytes.length then
          (.error (.storage "event snapshot exceeds byte limit"), self)
        else
          self.commit inserted.2 bytes io
    else
      (.ok
        { accepted := false
          priority := sourcePriorityLocalIndex
          reason := some "event unchanged or outside retention" },
        self)

/-- The part of `open` after the size of the file was checked. `parse` is
`serde_json::from_slice`. -/
def restoreSnapshot (parse : List UInt8 → Except String StoredSnapshot)
    (events : RetainedEvents nostr) (bytes : List UInt8) (now : ℕ) :
    Except PubsubError (RetainedEvents nostr) :=
  match parse bytes with
  | .error error => .error (.storage error)
  | .ok snapshot =>
    if snapshot.version ≠ 1 then
      .error (.storage "unsupported event snapshot version")
    else
      .ok (events.restore (snapshot.events.filterMap id) now)

/-- What `open` does with the file it finds at the path, if any. The parent directory, the
lock file and the reading are the caller's: their failures end `open` before anything is
restored. -/
def openFile (parse : List UInt8 → Except String StoredSnapshot) (retention : EventRetentionPolicy)
    (file : Option (List UInt8)) (now : ℕ) : Except PubsubError (FileEventBus nostr) :=
  match RetainedEvents.new retention with
  | .error error => .error error
  | .ok fresh =>
    match file with
    | none => .ok { events := some fresh, file }
    | some bytes =>
      if maxRetainedSnapshotBytes < bytes.length then
        .error (.storage "event snapshot exceeds byte limit")
      else
        match restoreSnapshot parse fresh bytes now with
        | .error error => .error error
        | .ok events => .ok { events := some events, file }

/-- `FileEventBus::query`, less the source and priority it adds to every event. -/
def query (self : FileEventBus nostr) (filters : List Filter) (limit : Option ℕ) (now : ℕ) :
    Except PubsubError (List (VerifiedEvent nostr)) :=
  match self.events with
  | none => .error (.storage "event store is closed")
  | some events => .ok (events.query filters limit now)

/-- `FileEventBus::close`. -/
def close (self : FileEventBus nostr) : FileEventBus nostr := { self with events := none }

end FileEventBus

/-! ## The size of a snapshot -/

theorem length_joinEntries_le (entries : List (List UInt8)) :
    (joinEntries entries).length ≤ (entries.map fun entry => entry.length + 1).sum := by
  induction entries with
  | nil => exact Nat.le_refl 0
  | cons entry rest ih =>
    have hcomma : (utf8Bytes ",").length = 1 := by decide +kernel
    cases rest with
    | nil => simp [joinEntries]
    | cons next rest =>
      simp only [joinEntries, List.length_append, hcomma, List.map_cons, List.sum_cons] at ih ⊢
      omega

namespace RetainedEvents

/-- The events of a store all have a JSON form, of the recorded sizes. -/
theorem mapM_toJson {events : List (VerifiedEvent nostr × ℕ)}
    (h : ∀ entry ∈ events, ∃ json, nostr.toJson entry.1.event = .ok json ∧ json.length = entry.2) :
    ∃ entries, (events.map (·.1.event)).mapM nostr.toJson = .ok entries
      ∧ (entries.map fun entry => entry.length + 1).sum = retainedBytes events := by
  induction events with
  | nil => exact ⟨[], rfl, rfl⟩
  | cons first rest ih =>
    obtain ⟨json, hjson, hlength⟩ := h first List.mem_cons_self
    obtain ⟨entries, hentries, hsum⟩ := ih fun entry hentry => h entry (List.mem_cons_of_mem _ hentry)
    refine ⟨json :: entries, ?_, ?_⟩
    · rw [List.map_cons, List.mapM_cons, hjson, hentries]
      rfl
    · rw [List.map_cons, List.sum_cons, hsum, hlength]
      rfl

/-- The snapshot of a sound store is within the byte limit. -/
theorem Sound.snapshotJson {store : RetainedEvents nostr} (h : Sound store) (now : ℕ) :
    ∃ bytes, NostrPubsub.snapshotJson nostr (store.snapshot now) = .ok bytes
      ∧ bytes.length ≤ maxRetainedSnapshotBytes := by
  have hencoded : ∀ entry ∈ store.events.filter
      (fun entry => retainedEventIsCurrent entry.1.event now),
      ∃ json, nostr.toJson entry.1.event = .ok json ∧ json.length = entry.2 := by
    intro entry hentry
    obtain ⟨json, hjson, hlength, -⟩ := h.encoded entry (List.mem_of_mem_filter hentry)
    exact ⟨json, hjson, hlength⟩
  obtain ⟨entries, hentries, hsum⟩ := mapM_toJson hencoded
  refine ⟨_, by rw [NostrPubsub.snapshotJson, snapshot, hentries]; rfl, ?_⟩
  have hjoin := length_joinEntries_le entries
  have hfits := h.fits.of_sublist (List.filter_sublist (p := fun entry =>
      retainedEventIsCurrent entry.1.event now))
  have hliterals : (utf8Bytes "\x7b\"version\":1,\"events\":[").length = 23
      ∧ (utf8Bytes "]\x7d").length = 2 := by decide +kernel
  unfold Fits at hfits
  simp only [List.length_append, hliterals.1, hliterals.2]
  omega

end RetainedEvents

end NostrPubsub
