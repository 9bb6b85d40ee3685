import NostrPubsub.Store.FileStore

/-!
# Commits of the file store

A publish that fails should leave the memory and the file as they were, and the two should
hold the same events after every publish. `publish` prepares the new snapshot beside the old
one and replaces the file by a rename, then replaces the memory; what can fail comes before
the rename, except for one step. The directory is synced after both were replaced, and a
failure of that is reported like any other. `CommitsThenFails` is that case, and it is the
only one (`publishes_atomic_iff`).
-/

namespace NostrPubsub

variable {nostr : NostrCrate}

namespace FileEventBus

/-- The file is the JSON snapshot of these events. A path without a file holds none. -/
def FileHolds (nostr : NostrCrate) (file : Option (List UInt8)) (events : List Event) : Prop :=
  match file with
  | none => events = []
  | some bytes => snapshotJson nostr events = .ok bytes

/-- The memory and the file hold the same events. -/
def Agrees (self : FileEventBus nostr) : Prop :=
  ∃ store listed, self.events = some store ∧ FileHolds nostr self.file listed
    ∧ ∀ event, event ∈ store.events.map (·.1.event) ↔ event ∈ listed

/-- The arguments of one `publish`, with the time it reads and what the file system answers. -/
structure Publication (nostr : NostrCrate) where
  event : VerifiedEvent nostr
  now : ℕ
  io : WriteOutcomes

/-- One `publish`. -/
def run (self : FileEventBus nostr) (p : Publication nostr) :
    Except PubsubError PublishReport × FileEventBus nostr :=
  self.publish p.event p.now p.io

/-- The bus after a list of publishes. -/
def afterAll (self : FileEventBus nostr) (publications : List (Publication nostr)) :
    FileEventBus nostr :=
  publications.foldl (fun bus p => (bus.run p).2) self

/-- A publish commits atomically: memory and file agree after it, and if it failed it changed
neither. -/
def AtomicAt (self : FileEventBus nostr) (p : Publication nostr) : Prop :=
  (self.run p).2.Agrees ∧ ((∃ error, (self.run p).1 = .error error) → (self.run p).2 = self)

/-- The event is accepted, its snapshot is written and renamed, and then the directory cannot
be synced. -/
def CommitsThenFails (self : FileEventBus nostr) (p : Publication nostr) : Prop :=
  ∃ store, self.events = some store ∧ (store.insert p.event p.now).1 = true
    ∧ (do p.io.create; p.io.write; p.io.sync; p.io.persist : Except String Unit) = .ok ()
    ∧ ∃ error, p.io.syncDirectory = .error error

end FileEventBus

/-! ## What an accepted event leaves in memory -/

namespace RetainedEvents

/-- After an accepted insert everything stored is current, and the event is new. -/
theorem insert_accepted {store : RetainedEvents nostr} {event : VerifiedEvent nostr} {now : ℕ}
    (h : (store.insert event now).1 = true) :
    (∀ entry ∈ (store.insert event now).2.events, retainedEventIsCurrent entry.1.event now)
    ∧ (store.insert event now).2.events ≠ store.events := by
  have hinserted := insert_inserted store event now
  generalize store.insert event now = result at hinserted h ⊢
  cases hinserted with
  | inadmissible _ => cases h
  | duplicate _ _ => cases h
  | superseded _ _ _ => cases h
  | stored hadmissible hid _ hkept =>
    refine ⟨?_, ?_⟩
    · intro entry hentry
      rcases mem_admitted.mp (hkept.isPrefix.subset hentry) with rfl | hold
      · exact hadmissible.2.1
      · exact (mem_besides.mp hold).2.1
    · intro heq
      simp only at heq h
      rw [heq] at h
      obtain ⟨entry, hentry, hsame⟩ := List.any_eq_true.mp h
      exact hid entry hentry (of_decide_eq_true hsame)

/-- The snapshot of a store all of whose entries are current lists all of them. -/
theorem snapshot_eq_map {store : RetainedEvents nostr} {now : ℕ}
    (h : ∀ entry ∈ store.events, retainedEventIsCurrent entry.1.event now) :
    store.snapshot now = store.events.map (·.1.event) := by
  rw [snapshot, List.filter_eq_self.mpr h]

end RetainedEvents

/-! ## One publish -/

namespace FileEventBus

/-- The ways a publish can end on an open bus. -/
inductive Published (self : FileEventBus nostr) (store : RetainedEvents nostr)
    (p : Publication nostr) : Except PubsubError PublishReport × FileEventBus nostr → Prop where
  /-- The event is not retained. -/
  | refused (hrefused : (store.insert p.event p.now).1 = false) (report : PublishReport) :
      Published self store p (.ok report, self)
  /-- A step up to the rename fails. -/
  | failed (error : PubsubError)
      (hsteps : (do p.io.create; p.io.write; p.io.sync; p.io.persist : Except String Unit) ≠ .ok ()) :
      Published self store p (.error error, self)
  /-- The rename is done, and the memory replaced. -/
  | committed (haccepted : (store.insert p.event p.now).1 = true)
      (hsteps : (do p.io.create; p.io.write; p.io.sync; p.io.persist : Except String Unit) = .ok ())
      {bytes : List UInt8}
      (hbytes : snapshotJson nostr ((store.insert p.event p.now).2.snapshot p.now) = .ok bytes)
      {result : Except PubsubError PublishReport}
      (hresult : (∃ error, result = .error error) ↔ ∃ error, p.io.syncDirectory = .error error) :
      Published self store p
        (result, { events := some (store.insert p.event p.now).2, file := some bytes })

/-- Every publish on an open bus ends in one of these ways. The snapshot of a sound store is
never too large, nor without a JSON form. -/
theorem run_published {self : FileEventBus nostr} {store : RetainedEvents nostr}
    (hstore : self.events = some store) (hsound : store.Sound) (p : Publication nostr) :
    Published self store p (self.run p) := by
  unfold run publish
  simp only [hstore]
  cases haccepted : (store.insert p.event p.now).1 with
  | false => exact .refused haccepted _
  | true =>
    obtain ⟨bytes, hbytes, hsize⟩ := (hsound.insert p.event p.now).1.snapshotJson p.now
    simp only [if_true, hbytes, if_neg (Nat.not_lt.mpr hsize), commit]
    rcases hsteps : (do p.io.create; p.io.write; p.io.sync; p.io.persist : Except String Unit)
      with error | ⟨⟩
    · exact .failed _ (by rw [hsteps]; exact nofun)
    · rcases hsync : p.io.syncDirectory with error | ⟨⟩
      · exact .committed haccepted hsteps hbytes (by simp [hsync])
      · exact .committed haccepted hsteps hbytes (by simp [hsync])

/-- An open bus with a sound memory that agrees with its file. -/
def Consistent (self : FileEventBus nostr) : Prop :=
  (∃ store, self.events = some store ∧ store.Sound) ∧ self.Agrees

/-- Every publish, failed or not, leaves memory and file in agreement. -/
theorem Consistent.run {self : FileEventBus nostr} (h : self.Consistent) (p : Publication nostr) :
    (self.run p).2.Consistent := by
  obtain ⟨⟨store, hstore, hsound⟩, hagrees⟩ := h
  have hpublished := run_published hstore hsound p
  generalize self.run p = result at hpublished ⊢
  cases hpublished with
  | refused _ _ => exact ⟨⟨store, hstore, hsound⟩, hagrees⟩
  | failed _ _ => exact ⟨⟨store, hstore, hsound⟩, hagrees⟩
  | committed haccepted _ hbytes _ =>
    refine ⟨⟨_, rfl, (hsound.insert p.event p.now).1⟩, _, _, rfl, hbytes, ?_⟩
    intro event
    rw [RetainedEvents.snapshot_eq_map (RetainedEvents.insert_accepted haccepted).1]

/-- A publish is atomic unless it commits and then fails. -/
theorem atomicAt_iff {self : FileEventBus nostr} (h : self.Consistent) (p : Publication nostr) :
    self.AtomicAt p ↔ ¬ self.CommitsThenFails p := by
  have hagrees := (h.run p).2
  obtain ⟨⟨store, hstore, hsound⟩, -⟩ := h
  have hpublished := run_published hstore hsound p
  constructor
  · rintro ⟨-, hunchanged⟩ ⟨store', hstore', haccepted, hsteps, error, hsync⟩
    obtain rfl : store = store' := by simpa [hstore] using hstore'
    generalize self.run p = result at hpublished hunchanged
    cases hpublished with
    | refused hrefused _ =>
      rw [haccepted] at hrefused
      cases hrefused
    | failed _ hfailed => exact hfailed hsteps
    | committed _ _ _ hresult =>
      -- The error is reported, but the memory is the new one.
      have hsame := congrArg FileEventBus.events (hunchanged (hresult.mpr ⟨error, hsync⟩))
      rw [hstore, Option.some.injEq] at hsame
      exact (RetainedEvents.insert_accepted haccepted).2 (congrArg RetainedEvents.events hsame)
  · intro hcommits
    refine ⟨hagrees, ?_⟩
    generalize self.run p = result at hpublished
    rintro ⟨error, herror⟩
    cases hpublished with
    | refused _ _ => rfl
    | failed _ _ => rfl
    | committed haccepted hsteps _ hresult =>
      exact absurd ⟨store, hstore, haccepted, hsteps, hresult.mp ⟨error, herror⟩⟩ hcommits

/-! ## Sequences of publishes -/

/-- A bus opened on a path without a file is consistent. -/
theorem consistent_openFile {parse : List UInt8 → Except String StoredSnapshot}
    {retention : EventRetentionPolicy} {now : ℕ} {self : FileEventBus nostr}
    (h : openFile parse retention none now = .ok self) : self.Consistent := by
  unfold openFile at h
  cases hnew : (RetainedEvents.new retention : Except PubsubError (RetainedEvents nostr)) with
  | error error =>
    rw [hnew] at h
    cases h
  | ok fresh =>
    rw [hnew] at h
    obtain rfl := Except.ok.inj h
    obtain ⟨hsound, -, hempty⟩ := RetainedEvents.sound_new hnew
    exact ⟨⟨fresh, rfl, hsound⟩, fresh, [], rfl, rfl, by simp [hempty]⟩

theorem Consistent.afterAll {self : FileEventBus nostr} (h : self.Consistent)
    (publications : List (Publication nostr)) : (self.afterAll publications).Consistent := by
  induction publications generalizing self with
  | nil => exact h
  | cons p rest ih => exact ih (h.run p)

/-- From a bus whose memory and file agree, and whatever fails on the way: memory and file
agree after every publish, and every publish of the sequence is atomic if and only if none of
them commits and then fails to sync the directory. -/
theorem publishes_atomic_iff {self : FileEventBus nostr} (h : self.Consistent)
    (publications : List (Publication nostr)) :
    (∀ before rest, publications = before ++ rest → (self.afterAll before).Agrees)
    ∧ ((∀ before p rest, publications = before ++ p :: rest → (self.afterAll before).AtomicAt p)
      ↔ ∀ before p rest, publications = before ++ p :: rest →
        ¬ (self.afterAll before).CommitsThenFails p) := by
  refine ⟨fun before _ _ => (h.afterAll before).2, ?_⟩
  constructor
  · intro hatomic before p rest heq
    exact (atomicAt_iff (h.afterAll before) p).mp (hatomic before p rest heq)
  · intro hcommits before p rest heq
    exact (atomicAt_iff (h.afterAll before) p).mpr (hcommits before p rest heq)

/-! ## A directory that cannot be synced -/

/-- A bus on a new path. -/
def noteBus : FileEventBus noteCrate := { events := some (RetainedEvents.noteStore 10), file := none }

/-- Everything works but the sync of the directory. -/
def directoryFails : WriteOutcomes where
  create := .ok ()
  write := .ok ()
  sync := .ok ()
  persist := .ok ()
  syncDirectory := .error "Input/output error"

/-- The disk is full. -/
def writeFails : WriteOutcomes := { directoryFails with write := .error "No space left on device" }

theorem noteBus_consistent : noteBus.Consistent := by
  have hopen : openFile (fun _ => .error "no file") (RetainedEvents.retainAll 10) none 0
      = .ok noteBus := rfl
  exact consistent_openFile hopen

/-- The publish fails, and yet the event is in memory and in the file. -/
theorem not_atomicAt_directoryFails :
    ¬ noteBus.AtomicAt { event := verifiedB, now := 5, io := directoryFails } := by
  rw [atomicAt_iff noteBus_consistent, not_not]
  exact ⟨_, rfl, by decide +kernel, rfl, _, rfl⟩

/-- A full disk leaves the new bus as it is. -/
theorem publishes_atomic_iff_writeFails :
    noteBus.AtomicAt { event := verifiedB, now := 5, io := writeFails } := by
  refine (publishes_atomic_iff noteBus_consistent
    [{ event := verifiedB, now := 5, io := writeFails }]).2.mpr ?_ [] _ [] rfl
  intro before p rest heq
  have hp : p ∈ [{ event := verifiedB, now := 5, io := writeFails }] := by
    rw [heq]
    exact List.mem_append_right before List.mem_cons_self
  rw [List.mem_singleton] at hp
  rintro ⟨store, -, -, hsteps, -⟩
  rw [hp] at hsteps
  cases hsteps

end FileEventBus

end NostrPubsub
