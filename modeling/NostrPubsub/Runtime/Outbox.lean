import NostrPubsub.Runtime.Publishing
import NostrPubsub.ToMathlib.Except

/-!
# What the outbox keeps

The entry of an event is put and deleted by every publication of the event that queues. A run keeps
its publications as long as those of one event that are under way agree on their targets, with each
other and with the outbox, and the entry is deleted by the last of them (`Careful`).

Then a publication whose call has been told that the event is queued finds an entry with its targets,
and an entry goes away only after one of its targets has accepted the event or the local admission
has refused it (`careful_run_keeps_publications`). Two overlapping calls with different relays break
both.
-/

namespace NostrPubsub.Runtime

/-! ## Publications and their entries -/

namespace Publication

variable {platform : Platform}

/-- The publication has put its entry and counts on it. -/
def Relies (publication : Publication) : Prop :=
  publication.options.queue = true ∧
    match publication.phase with
    | .putting | .ingesting | .ingested _ | .attempting => True
    | .settled (.ok result) => result.queued = true
    | _ => False

/-- The next thing the publication does is to delete its entry. -/
def Deletes (publication : Publication) : Prop :=
  publication.options.queue = true ∧
    (publication.phase = .ingested (.ok false) ∨
      publication.phase = .attempting ∧ publication.accepted = some true)

/-- What a publication knows is so: it lists the outbox to queue the event, and so it has when it says
that the event is queued; it asks the targets that were named; and an acceptance or refusal has
taken place. -/
structure Sound (platform : Platform) (accepted : List (EventId × Target)) (refused : List EventId)
    (publication : Publication) : Prop where
  listing : ∀ pending, publication.phase = .listing pending → publication.options.queue = true
  named : ∀ attempt ∈ publication.attempts, publication.options.targets.Names platform attempt.target
  accepted : publication.accepted = some true →
    ∃ target, (publication.event.id, target) ∈ accepted ∧
      publication.options.targets.Names platform target
  refused : publication.phase = .ingested (.ok false) → publication.event.id ∈ refused
  queued : ∀ result, publication.phase = .settled (.ok result) → result.queued = true →
    publication.options.queue = true

theorem Sound.mono {accepted accepted' : List (EventId × Target)} {refused refused' : List EventId}
    {publication : Publication} (h : Sound platform accepted refused publication)
    (haccepted : accepted ⊆ accepted') (hrefused : refused ⊆ refused') :
    Sound platform accepted' refused' publication where
  listing := h.listing
  named := h.named
  accepted := by
    intro hresolved
    obtain ⟨target, hmem, hnames⟩ := h.accepted hresolved
    exact ⟨target, haccepted hmem, hnames⟩
  refused := fun hphase => hrefused (h.refused hphase)
  queued := h.queued

end Publication

namespace NostrRuntime

variable {platform : Platform} {runtime : NostrRuntime} {publication : Publication}

/-- The targets that are asked are those that were named. -/
theorem names_of_mem_publishAttempts {options : RuntimePublishOptions} {attempts : List Attempt}
    (h : runtime.publishAttempts platform options = .ok attempts) :
    ∀ attempt ∈ attempts, options.targets.Names platform attempt.target := by
  obtain ⟨urls, hurls, rfl⟩ := Except.map_eq_ok.mp h
  intro attempt hattempt
  rcases List.mem_append.mp hattempt with hrelay | hsource
  · obtain ⟨url, hurl, rfl⟩ := List.mem_map.mp hrelay
    intro named hnamed
    have hlisted : options.relays = some named := hnamed
    rw [hlisted] at hurls
    obtain ⟨texts, htexts, rfl⟩ := Except.map_eq_ok.mp hurls
    exact Except.exists_of_mem_mapM htexts url (List.mem_eraseDups.mp hurl)
  · obtain ⟨source, hmem, rfl⟩ := List.mem_map.mp hsource
    have hselected := (Bool.and_eq_true_iff.mp (List.mem_filter.mp hmem).2).2
    cases hsources : options.sources with
    | some ids => simpa [Targets.Names, RuntimePublishOptions.targets, hsources] using hselected
    | none => simpa [Targets.Names, RuntimePublishOptions.targets, hsources] using hselected

/-- A publication goes on: it stays the publication it was, and what it knows is still so. -/
structure Goes (platform : Platform) (publication next : Publication) : Prop where
  event : next.event = publication.event
  options : next.options = publication.options
  sound : ∀ {accepted refused}, publication.Sound platform accepted refused →
    next.Sound platform accepted refused

/-- A publication that only moves to another `await`. -/
theorem goes_of_phase {phase : Phase} (hlisting : ∀ pending, phase ≠ .listing pending)
    (hrefused : phase ≠ .ingested (.ok false))
    (hqueued : ∀ result, phase = .settled (.ok result) → result.queued = true →
      publication.options.queue = true) :
    Goes platform publication { publication with phase } where
  event := rfl
  options := rfl
  sound := fun h => ⟨fun pending hphase => absurd hphase (hlisting pending), h.named, h.accepted,
    fun hphase => absurd hphase hrefused, hqueued⟩

theorem goes_of_settled {result : RuntimePublishResult}
    (h : result.queued = true → publication.options.queue = true) :
    Goes platform publication { publication with phase := .settled (.ok result) } := by
  refine goes_of_phase (fun _ => nofun) nofun fun settled hsettled => ?_
  cases hsettled
  exact h

theorem queued_finish {accepted : Bool} (h : (publication.finish accepted).queued = true) :
    publication.options.queue = true :=
  (Bool.and_eq_true_iff.mp h).1

theorem contact_goes : Goes platform publication (runtime.contact platform publication) := by
  unfold contact
  split
  · exact goes_of_phase (fun _ => nofun) nofun (fun _ => nofun)
  · next attempts hattempts =>
    refine ⟨rfl, rfl, fun h => ⟨fun _ => nofun, names_of_mem_publishAttempts hattempts, ?_, nofun,
      fun _ => nofun⟩⟩
    intro haccepted
    split at haccepted <;> cases haccepted

theorem proceed_goes : Goes platform publication (runtime.proceed platform publication) := by
  unfold proceed
  split
  · exact goes_of_phase (fun _ => nofun) nofun (fun _ => nofun)
  · exact contact_goes

theorem confirm_goes : Goes platform publication publication.confirm := by
  unfold Publication.confirm
  split
  · exact goes_of_settled queued_finish
  · exact goes_of_phase (fun _ => nofun) nofun (fun _ => nofun)

/-- What a publication does to the outbox when it goes on: nothing, and then it does not count on an
entry that it did not count on before, or it puts its entry, or it deletes it. -/
inductive Touches (publication next : Publication) (store : MemoryEventStore) :
    MemoryEventStore → Prop where
  | nothing (h : next.Relies → publication.Relies) : Touches publication next store store
  | puts (entry : RuntimeOutboxEntry) (pending : List RuntimeOutboxEntry)
      (hphase : publication.phase = .listing pending) (hevent : entry.event = publication.event)
      (htargets : entry.targets = publication.options.targets) :
      Touches publication next store
        { store with pending := store.pending.setBy (·.event.id) entry }
  | deletes (h : publication.Deletes) (hnext : ¬next.Relies) :
      Touches publication next store (store.deletePending publication.event.id)

theorem goes_refl : Goes platform publication publication := ⟨rfl, rfl, id⟩

/-- A publication that counts on its entry and goes on may count on it. -/
theorem Goes.touches_of_relies {next : Publication} (h : Goes platform publication next)
    {store : MemoryEventStore} (hrelies : publication.options.queue = true → publication.Relies) :
    Touches publication next store store := by
  refine .nothing fun hnext => hrelies ?_
  rw [← h.options]
  exact hnext.1

theorem touches_of_not_relies {next : Publication} {store : MemoryEventStore} (h : ¬next.Relies) :
    Touches publication next store store :=
  .nothing fun hnext => absurd hnext h

theorem not_relies_confirm : ¬publication.confirm.Relies := by
  unfold Publication.confirm
  split
  · -- an accepted event is not queued
    rintro ⟨-, hqueued⟩
    simp [Publication.finish] at hqueued
  · exact fun h => h.2

/-- A publication from one `await` to the next. -/
theorem advance_cases (runtime : NostrRuntime) (publication : Publication) (nowMs : ℕ) :
    Goes platform publication (runtime.advance platform publication nowMs).1 ∧
      Touches publication (runtime.advance platform publication nowMs).1 runtime.store
        (runtime.advance platform publication nowMs).2 := by
  unfold advance
  simp only
  -- A case for each phase. What matters is whether the publication still relies on its entry in the
  -- outbox: one phase puts the entry, and two delete it, after a refusal and after an acceptance.
  split
  · next pending hphase =>
    unfold MemoryEventStore.putPending
    split_ifs
    · exact ⟨goes_of_phase (fun _ => nofun) nofun (fun _ => nofun), touches_of_not_relies fun h => h.2⟩
    · exact ⟨goes_of_phase (fun _ => nofun) nofun (fun _ => nofun), .puts _ pending hphase rfl rfl⟩
  · next hphase =>
    refine ⟨proceed_goes, proceed_goes.touches_of_relies fun hqueue => ⟨hqueue, ?_⟩⟩
    rw [hphase]
    trivial
  · exact ⟨goes_of_phase (fun _ => nofun) nofun (fun _ => nofun), touches_of_not_relies fun h => h.2⟩
  · next hphase =>
    refine ⟨contact_goes, contact_goes.touches_of_relies fun hqueue => ⟨hqueue, ?_⟩⟩
    rw [hphase]
    trivial
  · next hphase =>
    split
    · next hqueue =>
      refine ⟨goes_of_phase (fun _ => nofun) nofun (fun _ => nofun), .deletes ⟨hqueue, .inl hphase⟩ ?_⟩
      exact fun h => h.2
    · refine ⟨goes_of_settled nofun, touches_of_not_relies ?_⟩
      rintro ⟨-, hqueued⟩
      cases hqueued
  · refine ⟨goes_of_settled nofun, touches_of_not_relies ?_⟩
    rintro ⟨-, hqueued⟩
    cases hqueued
  · next hphase =>
    have hrelies : publication.options.queue = true → publication.Relies := fun hqueue => by
      refine ⟨hqueue, ?_⟩
      rw [hphase]
      trivial
    split
    · exact ⟨goes_refl, .nothing id⟩
    · next haccepted =>
      split
      · next hqueue =>
        refine ⟨goes_of_phase (fun _ => nofun) nofun (fun _ => nofun),
          .deletes ⟨hqueue, .inr ⟨hphase, haccepted⟩⟩ fun h => h.2⟩
      · exact ⟨confirm_goes, touches_of_not_relies not_relies_confirm⟩
    · have hgoes : Goes platform publication { publication with
          phase := .settled (.ok (publication.finish false)) } :=
        goes_of_settled queued_finish
      exact ⟨hgoes, hgoes.touches_of_relies hrelies⟩
  · exact ⟨confirm_goes, touches_of_not_relies not_relies_confirm⟩
  · exact ⟨goes_of_phase (fun _ => nofun) nofun (fun _ => nofun), touches_of_not_relies fun h => h.2⟩
  · refine ⟨goes_of_settled queued_finish, touches_of_not_relies ?_⟩
    rintro ⟨-, hqueued⟩
    simp [Publication.finish] at hqueued
  · exact ⟨goes_refl, .nothing id⟩
  · exact ⟨goes_refl, .nothing id⟩
  · exact ⟨goes_refl, .nothing id⟩

/-! ## What holds in every state -/

/-- A publication that callers of the same event and options share. -/
def InFlight (runtime : NostrRuntime) (promise : ℕ) (publication : Publication) : Prop :=
  (publication.key, promise) ∈ runtime.publishing ∧
    runtime.publications[promise]? = some publication

/-- The outbox has an entry for an event with these targets. -/
def Holds (store : MemoryEventStore) (id : EventId) (targets : Targets) : Prop :=
  ∃ entry ∈ store.pending, entry.event.id = id ∧ entry.targets = targets

/-- What holds of a runtime whose publications do not clash. -/
structure Consistent (platform : Platform) (runtime : NostrRuntime) : Prop where
  /-- `publishing` has its publications, under their keys. -/
  listed : ∀ key promise, (key, promise) ∈ runtime.publishing →
    ∃ publication, runtime.publications[promise]? = some publication ∧ key = publication.key
  keys : (runtime.publishing.map Prod.fst).Nodup
  /-- A publication that is not settled is shared. -/
  unsettled : ∀ promise publication, runtime.publications[promise]? = some publication →
    publication.isSettled = false → (publication.key, promise) ∈ runtime.publishing
  sound : ∀ publication ∈ runtime.publications,
    publication.Sound platform runtime.accepted runtime.refused
  /-- The publications of an event agree on its targets. -/
  agree : ∀ m p, runtime.InFlight m p → p.options.queue = true → ∀ n q, runtime.InFlight n q →
    q.options.queue = true → q.event.id = p.event.id → q.options.targets = p.options.targets
  /-- The outbox agrees with them. -/
  entries : ∀ m p, runtime.InFlight m p → p.options.queue = true → ∀ entry ∈ runtime.store.pending,
    entry.event.id = p.event.id → entry.targets = p.options.targets
  held : ∀ m p, runtime.InFlight m p → p.Relies →
    Holds runtime.store p.event.id p.options.targets

theorem consistent_start (store : MemoryEventStore) (relays : List String)
    (sources : List RuntimeSource) : Consistent platform (start store relays sources) where
  listed := fun _ _ => nofun
  keys := List.nodup_nil
  unsettled := fun _ _ => nofun
  sound := fun _ => nofun
  agree := fun _ _ h => nomatch h.1
  entries := fun _ _ h => nomatch h.1
  held := fun _ _ h => nomatch h.1

/-- A turn that leaves the outbox, the publications and what has been answered. -/
theorem Consistent.of_eq (h : Consistent platform runtime) {next : NostrRuntime}
    (hstore : next.store = runtime.store) (hpublications : next.publications = runtime.publications)
    (hpublishing : next.publishing = runtime.publishing) (haccepted : next.accepted = runtime.accepted)
    (hrefused : next.refused = runtime.refused) : Consistent platform next := by
  have hflight : ∀ m p, next.InFlight m p ↔ runtime.InFlight m p := by
    intro m p
    rw [InFlight, InFlight, hpublishing, hpublications]
  refine ⟨?_, ?_, ?_, ?_, ?_, ?_, ?_⟩
  · rw [hpublishing, hpublications]
    exact h.listed
  · rw [hpublishing]
    exact h.keys
  · rw [hpublishing, hpublications]
    exact h.unsettled
  · rw [hpublications, haccepted, hrefused]
    exact h.sound
  · simp only [hflight]
    exact h.agree
  · simp only [hflight, hstore]
    exact h.entries
  · simp only [hflight, hstore]
    exact h.held

/-- Two publications under one key are one. -/
theorem Consistent.promise_eq (h : Consistent platform runtime)
    {key : EventId × RuntimePublishOptions} {m n : ℕ} (hm : (key, m) ∈ runtime.publishing)
    (hn : (key, n) ∈ runtime.publishing) : m = n := by
  have heq := List.inj_on_of_nodup_map h.keys hm hn rfl
  exact congrArg Prod.snd heq

/-! ### One publication goes on -/

/-- The publication `next` takes the place of a publication, as `advance` and the answers do it. -/
structure Replaces (platform : Platform) (runtime : NostrRuntime) (promise : ℕ)
    (publication next : Publication) (after : NostrRuntime) : Prop where
  started : runtime.publications[promise]? = some publication
  event : next.event = publication.event
  options : next.options = publication.options
  settled : publication.isSettled = true → next.isSettled = true
  sound : next.Sound platform after.accepted after.refused
  publications : after.publications = runtime.publications.set promise next
  publishing : after.publishing = runtime.publishing
  accepted : runtime.accepted ⊆ after.accepted
  refused : runtime.refused ⊆ after.refused
  touches : Touches publication next runtime.store after.store

namespace Replaces

variable {promise : ℕ} {next : Publication} {after : NostrRuntime}

theorem key_eq (h : Replaces platform runtime promise publication next after) :
    next.key = publication.key := by
  rw [Publication.key, Publication.key, h.event, h.options]

theorem getElem? (h : Replaces platform runtime promise publication next after) (m : ℕ) :
    after.publications[m]? = if m = promise then some next else runtime.publications[m]? := by
  have hlength := (List.getElem?_eq_some_iff.mp h.started).1
  rw [h.publications, List.getElem?_set]
  by_cases hm : m = promise
  · rw [if_pos hm, if_pos hm.symm, if_pos hlength]
  · rw [if_neg hm, if_neg fun heq => hm heq.symm]

/-- What is shared afterwards is the next publication or was shared before. -/
theorem inFlight (h : Replaces platform runtime promise publication next after) {m : ℕ}
    {q : Publication} (hq : after.InFlight m q) :
    (m = promise ∧ q = next ∧ runtime.InFlight promise publication) ∨
      (m ≠ promise ∧ runtime.InFlight m q) := by
  obtain ⟨hlisted, hget⟩ := hq
  rw [h.publishing] at hlisted
  rw [h.getElem? m] at hget
  by_cases hm : m = promise
  · rw [if_pos hm, Option.some.injEq] at hget
    rw [← hget, h.key_eq, hm] at hlisted
    exact .inl ⟨hm, hget.symm, hlisted, h.started⟩
  · rw [if_neg hm] at hget
    exact .inr ⟨hm, hlisted, hget⟩

/-- A shared publication was shared before, with its event and options. -/
theorem exists_before (h : Replaces platform runtime promise publication next after) {m : ℕ}
    {q : Publication} (hq : after.InFlight m q) :
    ∃ old, runtime.InFlight m old ∧ old.event = q.event ∧ old.options = q.options := by
  rcases h.inFlight hq with ⟨rfl, rfl, hold⟩ | ⟨-, hold⟩
  · exact ⟨publication, hold, h.event.symm, h.options.symm⟩
  · exact ⟨q, hold, rfl, rfl⟩

theorem agree (h : Replaces platform runtime promise publication next after)
    (hruntime : Consistent platform runtime) {m n : ℕ} {p q : Publication}
    (hp : after.InFlight m p) (hpq : p.options.queue = true) (hq : after.InFlight n q)
    (hqq : q.options.queue = true) (hid : q.event.id = p.event.id) :
    q.options.targets = p.options.targets := by
  obtain ⟨p', hp', hpevent, hpoptions⟩ := h.exists_before hp
  obtain ⟨q', hq', hqevent, hqoptions⟩ := h.exists_before hq
  rw [← hpoptions] at hpq ⊢
  rw [← hqoptions] at hqq ⊢
  exact hruntime.agree m p' hp' hpq n q' hq' hqq (by rw [hpevent, hqevent, hid])

/-- The outbox agrees with the publications after the turn. -/
theorem entries (h : Replaces platform runtime promise publication next after)
    (hruntime : Consistent platform runtime) {m : ℕ} {p : Publication} (hp : after.InFlight m p)
    (hpq : p.options.queue = true) {entry : RuntimeOutboxEntry} (hentry : entry ∈ after.store.pending)
    (hid : entry.event.id = p.event.id) : entry.targets = p.options.targets := by
  obtain ⟨p', hp', hpevent, hpoptions⟩ := h.exists_before hp
  rw [← hpoptions] at hpq ⊢
  rw [← hpevent] at hid
  have hold : entry ∈ runtime.store.pending → entry.targets = p'.options.targets := fun hmem =>
    hruntime.entries m p' hp' hpq entry hmem hid
  generalize hstore : after.store = store at hentry
  have htouches := h.touches
  rw [hstore] at htouches
  cases htouches with
  | nothing => exact hold hentry
  | puts new pending hphase hevent htargets =>
    rcases List.mem_setBy.mp hentry with rfl | ⟨hmem, -⟩
    · -- the new entry has the targets of the publication, with which this one agrees
      have hqueue := (hruntime.sound publication
        (List.mem_of_getElem? h.started)).listing pending hphase
      have hunsettled : publication.isSettled = false := by rw [Publication.isSettled, hphase]
      have hflight := hruntime.unsettled promise publication h.started hunsettled
      rw [htargets]
      refine hruntime.agree m p' hp' hpq promise publication ⟨hflight, h.started⟩ hqueue ?_
      rw [← hevent]
      exact hid
    · exact hold hmem
  | deletes => exact hold (List.mem_of_mem_filter hentry)

/-- An entry that a publication counts on is there after the turn, if a deletion finds no other
publication of the event. -/
theorem held (h : Replaces platform runtime promise publication next after)
    (hruntime : Consistent platform runtime)
    (hlast : after.store ≠ runtime.store → publication.Deletes → ∀ m q, m ≠ promise →
      runtime.InFlight m q → q.options.queue = true → q.event.id ≠ publication.event.id)
    {m : ℕ} {p : Publication} (hp : after.InFlight m p) (hrelies : p.Relies) :
    Holds after.store p.event.id p.options.targets := by
  suffices hentry : ∃ entry ∈ after.store.pending, entry.event.id = p.event.id by
    obtain ⟨entry, hmem, hid⟩ := hentry
    exact ⟨entry, hmem, hid, h.entries hruntime hp hrelies.1 hmem hid⟩
  have hflight := h.inFlight hp
  generalize hstore : after.store = store
  have htouches := h.touches
  rw [hstore] at htouches
  cases htouches with
  | nothing hkeeps =>
    rcases hflight with ⟨rfl, rfl, hold⟩ | ⟨-, hold⟩
    · obtain ⟨entry, hmem, hid, -⟩ := hruntime.held m publication hold (hkeeps hrelies)
      exact ⟨entry, hmem, by rw [hid, h.event]⟩
    · obtain ⟨entry, hmem, hid, -⟩ := hruntime.held m p hold hrelies
      exact ⟨entry, hmem, hid⟩
  | puts new pending hphase hevent htargets =>
    rcases hflight with ⟨rfl, rfl, hold⟩ | ⟨-, hold⟩
    · exact ⟨new, List.mem_setBy.mpr (.inl rfl), by rw [hevent, h.event]⟩
    · obtain ⟨entry, hmem, hid, -⟩ := hruntime.held m p hold hrelies
      by_cases hsame : entry.event.id = new.event.id
      · exact ⟨new, List.mem_setBy.mpr (.inl rfl), hsame.symm.trans hid⟩
      · exact ⟨entry, List.mem_setBy.mpr (.inr ⟨hmem, hsame⟩), hid⟩
  | deletes hdeletes hnext =>
    rcases hflight with ⟨rfl, rfl, -⟩ | ⟨hne, hold⟩
    · exact absurd hrelies hnext
    · obtain ⟨entry, hmem, hid, -⟩ := hruntime.held m p hold hrelies
      by_cases hsame : after.store = runtime.store
      · rw [← hstore, hsame]
        exact ⟨entry, hmem, hid⟩
      · refine ⟨entry, List.mem_filter.mpr ⟨hmem, ?_⟩, hid⟩
        rw [hid]
        simpa using hlast hsame hdeletes m p hne hold hrelies.1

/-- What holds of a runtime holds after a publication has gone on. -/
theorem consistent (h : Replaces platform runtime promise publication next after)
    (hruntime : Consistent platform runtime)
    (hlast : after.store ≠ runtime.store → publication.Deletes → ∀ m q, m ≠ promise →
      runtime.InFlight m q → q.options.queue = true → q.event.id ≠ publication.event.id) :
    Consistent platform after where
  listed := by
    intro key m hmem
    rw [h.publishing] at hmem
    obtain ⟨p, hp, rfl⟩ := hruntime.listed key m hmem
    rw [h.getElem? m]
    -- Only the publication that went on has changed.
    by_cases hm : m = promise
    · rw [if_pos hm]
      rw [hm, h.started, Option.some.injEq] at hp
      exact ⟨next, rfl, by rw [h.key_eq, hp]⟩
    · rw [if_neg hm]
      exact ⟨p, hp, rfl⟩
  keys := by
    rw [h.publishing]
    exact hruntime.keys
  unsettled := by
    intro m p hp hunsettled
    rw [h.getElem? m] at hp
    rw [h.publishing]
    by_cases hm : m = promise
    · rw [if_pos hm, Option.some.injEq] at hp
      rw [← hp, h.key_eq, hm]
      refine hruntime.unsettled promise publication h.started ?_
      rw [← Bool.not_eq_true]
      intro hsettled
      rw [← hp, h.settled hsettled] at hunsettled
      cases hunsettled
    · rw [if_neg hm] at hp
      exact hruntime.unsettled m p hp hunsettled
  sound := by
    intro p hp
    rw [h.publications] at hp
    rcases List.mem_or_eq_of_mem_set hp with hold | rfl
    · exact (hruntime.sound p hold).mono h.accepted h.refused
    · exact h.sound
  agree := fun _ _ hp hpq _ _ hq hqq hid => h.agree hruntime hp hpq hq hqq hid
  entries := fun _ _ hp hpq _ hentry hid => h.entries hruntime hp hpq hentry hid
  held := fun _ _ hp hrelies => h.held hruntime hlast hp hrelies

end Replaces

/-- A turn in which nothing that matters to the outbox changes, or one publication goes on. -/
theorem resume_replaces {promise : ℕ} (hstarted : runtime.publications[promise]? = some publication)
    (hsound : publication.Sound platform runtime.accepted runtime.refused) (nowMs : ℕ) :
    Replaces platform runtime promise publication (runtime.advance platform publication nowMs).1
      (runtime.resume platform promise nowMs) := by
  obtain ⟨hgoes, htouches⟩ := @advance_cases platform runtime publication nowMs
  have hresume : runtime.resume platform promise nowMs = { runtime with
      publications := runtime.publications.set promise (runtime.advance platform publication nowMs).1
      store := (runtime.advance platform publication nowMs).2 } := by
    rw [resume, hstarted]
  rw [hresume]
  refine ⟨hstarted, hgoes.event, hgoes.options, ?_, hgoes.sound hsound, rfl, rfl,
    List.Subset.refl _, List.Subset.refl _, htouches⟩
  intro hsettled
  unfold Publication.isSettled at hsettled
  split at hsettled
  · next result hphase =>
    unfold advance
    simp only [hphase, Publication.isSettled]
  · cases hsettled

theorem answer_cases {admitted : Except String Bool} {next : Publication}
    (h : publication.answer admitted = some next) :
    (publication.phase = .ingesting ∧ next = { publication with phase := .ingested admitted }) ∨
      (publication.phase = .confirming ∧ next = { publication with phase := .confirmed admitted }) := by
  unfold Publication.answer at h
  split at h
  · next hphase => exact .inl ⟨hphase, (Option.some.inj h).symm⟩
  · next hphase => exact .inr ⟨hphase, (Option.some.inj h).symm⟩
  · cases h

/-- An answer of the local admission changes nothing, or one publication goes on. -/
theorem ingested_cases (hruntime : Consistent platform runtime) (promise : ℕ)
    (admitted : Except String Bool) :
    runtime.ingested promise admitted = runtime ∨
      ∃ publication next, (runtime.ingested promise admitted).store = runtime.store ∧
        Replaces platform runtime promise publication next (runtime.ingested promise admitted) := by
  unfold ingested
  split
  · exact .inl rfl
  · next next hanswer =>
    obtain ⟨publication, hstarted, hnext⟩ := Option.bind_eq_some_iff.mp hanswer
    have hsound := hruntime.sound publication (List.mem_of_getElem? hstarted)
    right
    -- The admission is awaited before the sources are asked, or after one of them has accepted.
    rcases answer_cases hnext with ⟨hphase, rfl⟩ | ⟨hphase, rfl⟩
    · refine ⟨publication, { publication with phase := .ingested admitted }, rfl,
        hstarted, rfl, rfl, ?_, ?_, rfl, rfl, List.Subset.refl _, ?_, ?_⟩
      · intro hsettled
        rw [Publication.isSettled, hphase] at hsettled
        cases hsettled
      · refine ⟨fun _ => nofun, hsound.named, hsound.accepted, fun hrefused => ?_, fun _ => nofun⟩
        have hadmitted : admitted = .ok false := by cases hrefused; rfl
        rw [hadmitted]
        simp
      · intro id hid
        dsimp only
        split
        · exact List.mem_append_left _ hid
        · exact hid
      · refine .nothing fun hrelies => ⟨hrelies.1, ?_⟩
        rw [hphase]
        trivial
    · refine ⟨publication, { publication with phase := .confirmed admitted }, rfl,
        hstarted, rfl, rfl, ?_, ?_, rfl, rfl, List.Subset.refl _, ?_, ?_⟩
      · intro hsettled
        rw [Publication.isSettled, hphase] at hsettled
        cases hsettled
      · exact ⟨fun _ => nofun, hsound.named, hsound.accepted, nofun, fun _ => nofun⟩
      · intro id hid
        dsimp only
        split
        · exact List.mem_append_left _ hid
        · exact hid
      · exact touches_of_not_relies fun hrelies => hrelies.2

/-- An answer resolves the acceptance only if it is one. -/
theorem record_accepted {index : ℕ} {attempt : Attempt} {result : Except String Bool}
    (h : (publication.record index attempt result).accepted = some true) :
    publication.accepted = some true ∨
      ∃ remoteAccepted, result = .ok remoteAccepted ∧ (attempt.remote || remoteAccepted) = true := by
  cases haccepted : publication.accepted with
  | some accepted =>
    left
    simpa [Publication.record, haccepted] using h
  | none =>
    right
    cases result with
    | error error =>
      simp only [Publication.record, haccepted, Option.none_or] at h
      split at h
      · next h' => cases h'
      · rw [Option.none_or] at h
        split at h <;> cases h
    | ok remoteAccepted =>
      refine ⟨remoteAccepted, rfl, ?_⟩
      by_contra hnot
      simp only [Publication.record, haccepted, Option.none_or, if_neg hnot] at h
      split at h <;> cases h

/-- An answer of a relay or source changes nothing, or one publication goes on. -/
theorem attempted_cases (hruntime : Consistent platform runtime) (promise index : ℕ)
    (result : Except String Bool) :
    runtime.attempted promise index result = runtime ∨
      ∃ publication next, (runtime.attempted promise index result).store = runtime.store ∧
        Replaces platform runtime promise publication next (runtime.attempted promise index result) := by
  unfold attempted
  split
  · exact .inl rfl
  · next publication hstarted =>
    split
    · exact .inl rfl
    · next attempt hattempt =>
      split
      · right
        have hsound := hruntime.sound publication (List.mem_of_getElem? hstarted)
        have hlogged : ∀ acceptance : Bool, runtime.accepted ⊆ if acceptance then
            runtime.accepted ++ [(publication.event.id, attempt.target)] else runtime.accepted := by
          intro acceptance x hx
          split
          · exact List.mem_append_left _ hx
          · exact hx
        refine ⟨publication, publication.record index attempt result, rfl, hstarted, rfl, rfl, id, ?_,
          rfl, rfl, hlogged _, List.Subset.refl _, .nothing id⟩
        refine ⟨hsound.listing, hsound.named, fun haccepted => ?_, hsound.refused, hsound.queued⟩
        rcases record_accepted haccepted with hbefore | ⟨remoteAccepted, rfl, hremote⟩
        · obtain ⟨target, hmem, hnames⟩ := hsound.accepted hbefore
          exact ⟨target, hlogged _ hmem, hnames⟩
        · refine ⟨attempt.target, ?_, hsound.named attempt (List.mem_of_getElem? hattempt)⟩
          simp only [if_pos hremote]
          exact List.mem_append_right _ (List.mem_singleton.mpr rfl)
      · exact .inl rfl

/-! ### Calls -/

/-- A call that queues an event finds its targets in the outbox entry of the event, if there is one,
and in the publications of the event that are under way. -/
def CallMeets (event : Event) (options : RuntimePublishOptions) (runtime : NostrRuntime) : Prop :=
  options.queue = true →
    (∀ m q, runtime.InFlight m q → q.options.queue = true → q.event.id = event.id →
      q.options.targets = options.targets) ∧
    ∀ entry ∈ runtime.store.pending, entry.event.id = event.id → entry.targets = options.targets

theorem publishOnce_event (event : Event) (options : RuntimePublishOptions) :
    (runtime.publishOnce platform event options).event = event ∧
      (runtime.publishOnce platform event options).options = options := by
  unfold publishOnce
  split
  · exact ⟨rfl, rfl⟩
  · split
    · exact ⟨rfl, rfl⟩
    · have hgoes : Goes platform { event, options, phase := .putting }
          (runtime.proceed platform { event, options, phase := .putting }) := proceed_goes
      exact ⟨hgoes.event, hgoes.options⟩

/-- A new publication has nothing to count on yet. -/
theorem publishOnce_new (event : Event) (options : RuntimePublishOptions)
    (accepted : List (EventId × Target)) (refused : List EventId) :
    (runtime.publishOnce platform event options).Sound platform accepted refused ∧
      ¬(runtime.publishOnce platform event options).Relies := by
  unfold publishOnce
  split
  · exact ⟨⟨fun _ => nofun, fun _ => nofun, nofun, nofun, fun _ => nofun⟩, fun h => h.2⟩
  · split
    · next hqueue =>
      exact ⟨⟨fun _ _ => hqueue, fun _ => nofun, nofun, nofun, fun _ => nofun⟩, fun h => h.2⟩
    · next hqueue =>
      have hgoes : Goes platform { event, options, phase := .putting }
          (runtime.proceed platform { event, options, phase := .putting }) := proceed_goes
      refine ⟨hgoes.sound ⟨fun _ => nofun, fun _ => nofun, nofun, nofun, fun _ => nofun⟩,
        fun h => hqueue ?_⟩
      have hqueued := h.1
      rw [hgoes.options] at hqueued
      exact hqueued

/-- What holds of a runtime holds after a call. -/
theorem Consistent.publish (h : Consistent platform runtime) {event : Event}
    {options : RuntimePublishOptions} (hmeets : CallMeets event options runtime) :
    Consistent platform (runtime.publish platform event options).2 ∧
      (runtime.publish platform event options).2.store = runtime.store := by
  unfold NostrRuntime.publish
  split
  · exact ⟨h, rfl⟩
  · next hfresh =>
    refine ⟨?_, rfl⟩
    set publication := runtime.publishOnce platform event options with hpublication
    obtain ⟨hevent, hoptions⟩ := @publishOnce_event platform runtime event options
    obtain ⟨hsound, hrelies⟩ :=
      @publishOnce_new platform runtime event options runtime.accepted runtime.refused
    rw [← hpublication] at hevent hoptions hsound hrelies
    have hkey : publication.key = (event.id, options) := by
      rw [Publication.key, hevent, hoptions]
    have hnew : ∀ promise, ((event.id, options), promise) ∉ runtime.publishing := by
      intro promise hmem
      have hlookup := List.lookup_eq_none_iff.mp hfresh _ hmem
      simp at hlookup
    have hget := @List.getElem?_concat_eq_some _ runtime.publications publication
    -- what is shared is the new publication or was shared before
    have hflight : ∀ {m q}, InFlight { runtime with
        publications := runtime.publications ++ [publication]
        publishing := runtime.publishing ++
          [((event.id, options), runtime.publications.length)] } m q →
        runtime.InFlight m q ∨ q = publication := by
      rintro m q ⟨hlisted, hq⟩
      rcases (hget m q).mp hq with hold | ⟨-, rfl⟩
      · rcases List.mem_append.mp hlisted with hlisted | hlast
        · exact .inl ⟨hlisted, hold⟩
        · obtain ⟨-, rfl⟩ := Prod.mk.injEq _ _ _ _ ▸ List.mem_singleton.mp hlast
          rw [List.getElem?_eq_none le_rfl] at hold
          cases hold
      · exact .inr rfl
    refine ⟨?_, ?_, ?_, ?_, ?_, ?_, ?_⟩
    · intro key promise hmem
      rcases List.mem_append.mp hmem with hold | hlast
      · obtain ⟨q, hq, rfl⟩ := h.listed key promise hold
        exact ⟨q, (hget promise q).mpr (.inl hq), rfl⟩
      · obtain ⟨rfl, rfl⟩ := Prod.mk.injEq _ _ _ _ ▸ List.mem_singleton.mp hlast
        exact ⟨publication, (hget _ _).mpr (.inr ⟨rfl, rfl⟩), hkey.symm⟩
    · rw [List.map_append, List.nodup_append]
      refine ⟨h.keys, List.nodup_singleton _, ?_⟩
      rintro key hkeyMem key' hlast rfl
      obtain ⟨⟨key, promise⟩, hmem, rfl⟩ := List.mem_map.mp hkeyMem
      have heq : key = (event.id, options) := List.mem_singleton.mp hlast
      rw [heq] at hmem
      exact hnew promise hmem
    · intro promise q hq hunsettled
      rcases (hget promise q).mp hq with hold | ⟨rfl, rfl⟩
      · exact List.mem_append_left _ (h.unsettled promise q hold hunsettled)
      · rw [hkey]
        exact List.mem_append_right _ (List.mem_singleton.mpr rfl)
    · intro q hq
      rcases List.mem_append.mp hq with hold | hlast
      · exact h.sound q hold
      · rw [List.mem_singleton.mp hlast]
        exact hsound
    · intro m p hp hpq n q hq hqq hid
      rcases hflight hp with hp | rfl
      · rcases hflight hq with hq | rfl
        · exact h.agree m p hp hpq n q hq hqq hid
        · rw [hoptions] at hqq ⊢
          rw [hevent] at hid
          exact ((hmeets hqq).1 m p hp hpq hid.symm).symm
      · rw [hoptions] at hpq ⊢
        rw [hevent] at hid
        rcases hflight hq with hq | rfl
        · exact (hmeets hpq).1 n q hq hqq hid
        · rw [hoptions]
    · intro m p hp hpq entry hentry hid
      rcases hflight hp with hp | rfl
      · exact h.entries m p hp hpq entry hentry hid
      · rw [hoptions] at hpq ⊢
        rw [hevent] at hid
        exact (hmeets hpq).2 entry hentry hid
    · intro m p hp hprelies
      rcases hflight hp with hp | rfl
      · exact h.held m p hp hprelies
      · exact absurd hprelies hrelies

/-- The calls of `retryPending` for some entries, one after the other. -/
def CallsMeet (platform : Platform) : List RuntimeOutboxEntry → NostrRuntime → Prop
  | [], _ => True
  | entry :: entries, runtime => CallMeets entry.event entry.options runtime ∧
    CallsMeet platform entries (runtime.publish platform entry.event entry.options).2

theorem Consistent.publishEntries (entries : List RuntimeOutboxEntry) {runtime : NostrRuntime}
    (h : Consistent platform runtime) (hmeets : CallsMeet platform entries runtime) :
    Consistent platform (runtime.publishEntries platform entries).2 ∧
      (runtime.publishEntries platform entries).2.store = runtime.store := by
  induction entries generalizing runtime with
  | nil => exact ⟨h, rfl⟩
  | cons entry entries ih =>
    obtain ⟨hcall, hrest⟩ := hmeets
    obtain ⟨hnext, hstore⟩ := h.publish hcall
    obtain ⟨hlast, hlastStore⟩ := ih hnext hrest
    exact ⟨hlast, hlastStore.trans hstore⟩

/-- What holds of a runtime holds after the `finally` of a publication. -/
theorem Consistent.forget (h : Consistent platform runtime) (promise : ℕ) :
    Consistent platform (runtime.forget promise) := by
  unfold NostrRuntime.forget
  split
  · exact h
  · next publication hstarted =>
    split
    · next hsettled =>
      have hflight : ∀ {m q}, InFlight { runtime with
          publishing := runtime.publishing.filter (·.1 ≠ publication.key) } m q →
          runtime.InFlight m q := fun hq => ⟨List.mem_of_mem_filter hq.1, hq.2⟩
      refine ⟨?_, ?_, ?_, h.sound, ?_, ?_, ?_⟩
      · intro key m hmem
        exact h.listed key m (List.mem_of_mem_filter hmem)
      · exact h.keys.sublist (List.filter_sublist.map Prod.fst)
      · intro m q hq hunsettled
        have hlisted := h.unsettled m q hq hunsettled
        refine List.mem_filter.mpr ⟨hlisted, ?_⟩
        simp only [ne_eq, decide_not, Bool.not_eq_true', decide_eq_false_iff_not]
        intro hkey
        -- a publication under the key of the settled one is the settled one
        rw [hkey] at hlisted
        rw [h.promise_eq hlisted hsettled.2, hstarted, Option.some.injEq] at hq
        rw [← hq, hsettled.1] at hunsettled
        cases hunsettled
      · intro m p hp hpq n q hq
        exact h.agree m p (hflight hp) hpq n q (hflight hq)
      · intro m p hp
        exact h.entries m p (hflight hp)
      · intro m p hp
        exact h.held m p (hflight hp)
    · exact h

/-! ## Runs without clashes -/

/-- A turn is careful: a call that queues an event finds no other targets for it, and a publication
deletes an entry only when no other publication of the event that queues is under way. -/
def Meets (platform : Platform) (runtime : NostrRuntime) : Input → Prop
  | .publish event options => CallMeets event options runtime
  | .retryNext => ∀ retry, runtime.retrying = some retry → retry.awaiting.all runtime.isSettled = true →
    CallsMeet platform (retry.entries.take 4) runtime
  | .resume promise _ => ∀ publication, runtime.publications[promise]? = some publication →
    publication.Deletes → ∀ m q, m ≠ promise → runtime.InFlight m q → q.options.queue = true →
      q.event.id ≠ publication.event.id
  | _ => True

/-- Every turn of a run is careful. -/
def Careful (platform : Platform) : List Input → NostrRuntime → Prop
  | [], _ => True
  | input :: inputs, runtime =>
    Meets platform runtime input ∧ Careful platform inputs (runtime.step platform input)

/-- Calls that have been told that their event is queued find an entry with their targets. -/
def Promised (runtime : NostrRuntime) : Prop :=
  ∀ promise publication result, runtime.InFlight promise publication →
    publication.phase = .settled (.ok result) → result.queued = true →
      Holds runtime.store publication.event.id publication.options.targets

/-- In a turn an entry goes away only if one of its targets has accepted the event, or the local
admission has refused it. -/
def Kept (platform : Platform) (before after : NostrRuntime) : Prop :=
  ∀ entry ∈ before.store.pending, Holds after.store entry.event.id entry.targets ∨
    (∃ target, (entry.event.id, target) ∈ before.accepted ∧ entry.targets.Names platform target) ∨
    entry.event.id ∈ before.refused

theorem retryPending_eq (runtime : NostrRuntime) :
    ∃ retrying, runtime.retryPending = { runtime with retrying } := by
  unfold retryPending
  split
  · exact ⟨runtime.retrying, rfl⟩
  · exact ⟨_, rfl⟩

theorem kept_of_store_eq {after : NostrRuntime} (h : after.store = runtime.store) :
    Kept platform runtime after := by
  intro entry hentry
  rw [h]
  exact .inl ⟨entry, hentry, rfl, rfl⟩

/-- When a publication goes on, only an entry that it may delete goes away. -/
theorem Replaces.kept {promise : ℕ} {next : Publication} {after : NostrRuntime}
    (h : Replaces platform runtime promise publication next after)
    (hruntime : Consistent platform runtime) : Kept platform runtime after := by
  intro entry hentry
  have hsound := hruntime.sound publication (List.mem_of_getElem? h.started)
  generalize hstore : after.store = store
  have htouches := h.touches
  rw [hstore] at htouches
  cases htouches with
  | nothing => exact .inl ⟨entry, hentry, rfl, rfl⟩
  | puts new pending hphase hevent htargets =>
    left
    by_cases hid : entry.event.id = new.event.id
    · -- the entry has the targets of the publication, and so has the new one
      have hunsettled : publication.isSettled = false := by rw [Publication.isSettled, hphase]
      have hflight := hruntime.unsettled promise publication h.started hunsettled
      refine ⟨new, List.mem_setBy.mpr (.inl rfl), hid.symm, ?_⟩
      rw [htargets]
      refine (hruntime.entries promise publication ⟨hflight, h.started⟩
        (hsound.listing pending hphase) entry hentry ?_).symm
      rw [hid, hevent]
    · exact ⟨entry, List.mem_setBy.mpr (.inr ⟨hentry, hid⟩), rfl, rfl⟩
  | deletes hdeletes hnext =>
    by_cases hid : entry.event.id = publication.event.id
    · right
      obtain ⟨hqueue, hphase⟩ := hdeletes
      have hunsettled : publication.isSettled = false := by
        rcases hphase with hphase | ⟨hphase, -⟩ <;> rw [Publication.isSettled, hphase]
      have hflight := hruntime.unsettled promise publication h.started hunsettled
      have htargets := hruntime.entries promise publication ⟨hflight, h.started⟩ hqueue entry hentry hid
      rw [hid, htargets]
      rcases hphase with hphase | ⟨-, haccepted⟩
      · exact .inr (hsound.refused hphase)
      · exact .inl (hsound.accepted haccepted)
    · left
      exact ⟨entry, List.mem_filter.mpr ⟨hentry, by simpa using hid⟩, rfl, rfl⟩

/-- One careful turn. -/
theorem Consistent.step (h : Consistent platform runtime) {input : Input}
    (hmeets : Meets platform runtime input) :
    Consistent platform (runtime.step platform input) ∧
      Kept platform runtime (runtime.step platform input) := by
  cases input with
  | publish event options =>
    obtain ⟨hnext, hstore⟩ := h.publish hmeets
    exact ⟨hnext, kept_of_store_eq hstore⟩
  | retryPending =>
    obtain ⟨retrying, heq⟩ := retryPending_eq runtime
    change Consistent platform runtime.retryPending ∧ Kept platform runtime runtime.retryPending
    rw [heq]
    exact ⟨h.of_eq rfl rfl rfl rfl rfl, kept_of_store_eq rfl⟩
  | retryNext =>
    change Consistent platform (runtime.retryNext platform) ∧
      Kept platform runtime (runtime.retryNext platform)
    unfold retryNext
    split
    · exact ⟨h, kept_of_store_eq rfl⟩
    · -- the next retry waits for the one that goes on, and then publishes what is left of its
      -- entries
      next retry hretry =>
      split
      · next hsettled =>
        split
        · exact ⟨h.of_eq rfl rfl rfl rfl rfl, kept_of_store_eq rfl⟩
        · obtain ⟨hnext, hstore⟩ := h.publishEntries _ (hmeets retry hretry hsettled)
          exact ⟨hnext.of_eq rfl rfl rfl rfl rfl, kept_of_store_eq hstore⟩
      · exact ⟨h, kept_of_store_eq rfl⟩
  | resume promise nowMs =>
    change Consistent platform (runtime.resume platform promise nowMs) ∧
      Kept platform runtime (runtime.resume platform promise nowMs)
    cases hstarted : runtime.publications[promise]? with
    | none =>
      have heq : runtime.resume platform promise nowMs = runtime := by rw [resume, hstarted]
      rw [heq]
      exact ⟨h, kept_of_store_eq rfl⟩
    | some publication =>
      -- The one step that may delete an entry; careful means that nobody else relies on it.
      have hreplaces := resume_replaces hstarted (h.sound _ (List.mem_of_getElem? hstarted)) nowMs
      exact ⟨hreplaces.consistent h fun _ hdeletes => hmeets publication hstarted hdeletes,
        hreplaces.kept h⟩
  | ingested promise admitted =>
    rcases ingested_cases h promise admitted with heq | ⟨publication, next, hstore, hreplaces⟩
    · change Consistent platform (runtime.ingested promise admitted) ∧
        Kept platform runtime (runtime.ingested promise admitted)
      rw [heq]
      exact ⟨h, kept_of_store_eq rfl⟩
    · exact ⟨hreplaces.consistent h fun hne => absurd hstore hne, kept_of_store_eq hstore⟩
  | attempted promise index result =>
    -- An attempt is noted in its publication; the store is not touched.
    rcases attempted_cases h promise index result with heq | ⟨publication, next, hstore, hreplaces⟩
    · change Consistent platform (runtime.attempted promise index result) ∧
        Kept platform runtime (runtime.attempted promise index result)
      rw [heq]
      exact ⟨h, kept_of_store_eq rfl⟩
    · exact ⟨hreplaces.consistent h fun hne => absurd hstore hne, kept_of_store_eq hstore⟩
  | forget promise =>
    refine ⟨h.forget promise, kept_of_store_eq ?_⟩
    change (runtime.forget promise).store = runtime.store
    unfold NostrRuntime.forget
    split
    · rfl
    · split <;> rfl
  | setRelays urls =>
    change Consistent platform (runtime.setRelays platform urls) ∧
      Kept platform runtime (runtime.setRelays platform urls)
    unfold setRelays
    split
    · exact ⟨h, kept_of_store_eq rfl⟩
    · next relays _ =>
      obtain ⟨retrying, heq⟩ := retryPending_eq { runtime with relays }
      rw [heq]
      exact ⟨h.of_eq rfl rfl rfl rfl rfl, kept_of_store_eq rfl⟩
  | addSource source =>
    obtain ⟨retrying, heq⟩ := retryPending_eq { runtime.removeSource source.id with
      sources := (runtime.removeSource source.id).sources ++ [source] }
    change Consistent platform (runtime.addSource source) ∧
      Kept platform runtime (runtime.addSource source)
    rw [addSource, heq]
    exact ⟨h.of_eq rfl rfl rfl rfl rfl, kept_of_store_eq rfl⟩
  | removeSource id => exact ⟨h.of_eq rfl rfl rfl rfl rfl, kept_of_store_eq rfl⟩

/-- What holds of a runtime holds after a careful run. -/
theorem Consistent.run (inputs : List Input) {runtime : NostrRuntime}
    (h : Consistent platform runtime) (hcareful : Careful platform inputs runtime) :
    Consistent platform (runtime.run platform inputs) := by
  induction inputs generalizing runtime with
  | nil => exact h
  | cons input inputs ih => exact ih (h.step hcareful.1).1 hcareful.2

theorem careful_concat {inputs : List Input} {input : Input} {runtime : NostrRuntime} :
    Careful platform (inputs ++ [input]) runtime ↔
      Careful platform inputs runtime ∧ Meets platform (runtime.run platform inputs) input := by
  induction inputs generalizing runtime with
  | nil => simp [Careful, run]
  | cons first inputs ih =>
    rw [List.cons_append, Careful, ih, Careful, and_assoc]
    rfl

theorem Consistent.promised (h : Consistent platform runtime) : Promised runtime := by
  intro promise publication result hflight hphase hqueued
  refine h.held promise publication hflight ⟨?_, ?_⟩
  · exact (h.sound publication (List.mem_of_getElem? hflight.2)).queued result hphase hqueued
  · rw [hphase]
    exact hqueued

/-- In every careful run, calls that have been told that their event is queued find an entry with
their targets, and an entry goes away only after one of its targets has accepted the event or the
local admission has refused it. -/
theorem careful_run_keeps_publications (platform : Platform) (store : MemoryEventStore)
    (relays : List String) (sources : List RuntimeSource) (inputs : List Input) (input : Input)
    (hcareful : Careful platform (inputs ++ [input]) (start store relays sources)) :
    let before := (start store relays sources).run platform inputs
    Promised (before.step platform input) ∧ Kept platform before (before.step platform input) := by
  obtain ⟨hinputs, hinput⟩ := careful_concat.mp hcareful
  have hbefore := (consistent_start store relays sources).run inputs hinputs
  obtain ⟨hafter, hkept⟩ := hbefore.step hinput
  exact ⟨hafter.promised, hkept⟩

/-! ### Deciding that a run is careful -/

instance : DecidablePred Publication.Deletes := fun _ => inferInstanceAs (Decidable (_ ∧ _))

/-- No publication of the event, under way or settled, and no entry has other targets. -/
def callAgrees (event : Event) (options : RuntimePublishOptions) (runtime : NostrRuntime) : Bool :=
  runtime.publications.all (fun q =>
    decide (q.event.id = event.id → q.options.targets = options.targets)) &&
  runtime.store.pending.all fun entry =>
    decide (entry.event.id = event.id → entry.targets = options.targets)

def callsAgree (platform : Platform) : List RuntimeOutboxEntry → NostrRuntime → Bool
  | [], _ => true
  | entry :: entries, runtime => callAgrees entry.event entry.options runtime &&
    callsAgree platform entries (runtime.publish platform entry.event entry.options).2

/-- A publication that is resumed is the only one under way, or deletes nothing. -/
def agrees (platform : Platform) (runtime : NostrRuntime) : Input → Bool
  | .publish event options => callAgrees event options runtime
  | .retryNext => runtime.retrying.all fun retry => callsAgree platform (retry.entries.take 4) runtime
  | .resume promise _ => runtime.publishing.all (fun entry => entry.2 = promise) ||
    (runtime.publications[promise]?).all fun publication => !decide publication.Deletes
  | _ => true

/-- Every turn of a run agrees with what is under way. -/
def agreesAll (platform : Platform) : List Input → NostrRuntime → Bool
  | [], _ => true
  | input :: inputs, runtime =>
    runtime.agrees platform input && agreesAll platform inputs (runtime.step platform input)

theorem callMeets_of_agrees {event : Event} {options : RuntimePublishOptions}
    (h : callAgrees event options runtime = true) : CallMeets event options runtime := by
  simp only [callAgrees, Bool.and_eq_true, List.all_eq_true, decide_eq_true_eq] at h
  intro _
  exact ⟨fun m q hq _ => h.1 q (List.mem_of_getElem? hq.2), h.2⟩

theorem callsMeet_of_agree {entries : List RuntimeOutboxEntry} {runtime : NostrRuntime}
    (h : callsAgree platform entries runtime = true) : CallsMeet platform entries runtime := by
  induction entries generalizing runtime with
  | nil => trivial
  | cons entry entries ih =>
    obtain ⟨hfirst, hrest⟩ := Bool.and_eq_true_iff.mp h
    exact ⟨callMeets_of_agrees hfirst, ih hrest⟩

theorem meets_of_agrees {input : Input} (h : runtime.agrees platform input = true) :
    Meets platform runtime input := by
  cases input with
  | publish event options => exact callMeets_of_agrees h
  | retryNext =>
    intro retry hretry _
    rw [agrees, hretry] at h
    exact callsMeet_of_agree h
  | resume promise nowMs =>
    intro publication hpublication hdeletes m q hne hq
    rcases Bool.or_eq_true_iff.mp h with halone | hkeeps
    · exact absurd (of_decide_eq_true (List.all_eq_true.mp halone _ hq.1)) hne
    · rw [hpublication, Option.all_some, Bool.not_eq_true', decide_eq_false_iff_not] at hkeeps
      exact absurd hdeletes hkeeps
  | _ => trivial

theorem careful_of_agreesAll {inputs : List Input} {runtime : NostrRuntime}
    (h : agreesAll platform inputs runtime = true) : Careful platform inputs runtime := by
  induction inputs generalizing runtime with
  | nil => trivial
  | cons input inputs ih =>
    obtain ⟨hfirst, hrest⟩ := Bool.and_eq_true_iff.mp h
    exact ⟨meets_of_agrees hfirst, ih hrest⟩

/-! ### Two publications of a note -/

/-- `new URL` on the addresses of two relays, and the verification of a note. -/
def notePlatform : Platform where
  parseUrl url :=
    if url = "wss://a.example/" ∨ url = "wss://b.example/" then .ok ("wss:", url)
    else .error "Invalid URL"
  verifyEvent event := if event = noteA then .ok () else .error "invalid signature"

def toRelayA : RuntimePublishOptions := ⟨[.relays ["wss://a.example/"]]⟩

def toRelayB : RuntimePublishOptions := ⟨[.relays ["wss://b.example/"]]⟩

def emptyRuntime : NostrRuntime :=
  start { maxEvents := 20000, maxPending := 1000, events := [], pending := [] } [] []

/-- The same targets, under options that are written otherwise. -/
def toRelayAQueued : RuntimePublishOptions := ⟨[.relays ["wss://a.example/"], .queue true]⟩

/-- Two publications of the note overlap, and the relay takes neither. The entry is published again,
and the relay takes it. -/
def takenOnRetry : List Input :=
  [.publish noteA toRelayA, .resume 0 1, .publish noteA toRelayAQueued, .resume 1 2, .resume 0 3,
    .ingested 0 (.ok true), .resume 0 4, .resume 1 5, .ingested 1 (.ok true), .resume 1 6,
    .attempted 0 0 (.error "blocked"), .resume 0 7, .forget 0, .attempted 1 0 (.error "blocked"),
    .resume 1 8, .forget 1, .retryPending, .retryNext, .resume 2 9, .resume 2 10,
    .ingested 2 (.ok true), .resume 2 11, .attempted 2 0 (.ok true)]

/-- Both calls were told that the note is queued. The entry stays until the relay has taken it, and
goes away in the turn after. -/
theorem careful_run_keeps_publications_retried :
    let before := emptyRuntime.run notePlatform takenOnRetry
    before.store.pending.map RuntimeOutboxEntry.targets = [toRelayA.targets] ∧
    (before.step notePlatform (.resume 2 12)).store.pending = [] ∧
    Promised (before.step notePlatform (.resume 2 12)) ∧
    Kept notePlatform before (before.step notePlatform (.resume 2 12)) :=
  ⟨by decide +kernel, by decide +kernel, careful_run_keeps_publications notePlatform _ _ _
    takenOnRetry _ (careful_of_agreesAll (by decide +kernel))⟩

/-- While a publication to one relay is under way, the event is published to another relay. -/
def overlapping : List Input :=
  [.publish noteA toRelayA, .resume 0 1, .publish noteA toRelayB, .resume 1 2, .resume 0 3,
    .ingested 0 (.ok true), .resume 0 4, .attempted 0 0 (.error "blocked"), .resume 0 5]

/-- The second call overwrites the entry of the first, which no relay has accepted, and the first is
told that its event is queued. -/
theorem overlapping_publication_lost :
    ¬Kept notePlatform (emptyRuntime.run notePlatform (overlapping.take 3))
        (emptyRuntime.run notePlatform (overlapping.take 4)) ∧
      ¬Promised (emptyRuntime.run notePlatform overlapping) := by
  have hbefore : (emptyRuntime.run notePlatform (overlapping.take 3)).store.pending =
      [⟨noteA, 1, 1, toRelayA.relays, none⟩] := by decide +kernel
  have hafter : (emptyRuntime.run notePlatform (overlapping.take 4)).store.pending =
      [⟨noteA, 2, 2, toRelayB.relays, none⟩] := by decide +kernel
  have hlast : (emptyRuntime.run notePlatform overlapping).store.pending =
      [⟨noteA, 2, 2, toRelayB.relays, none⟩] := by decide +kernel
  constructor
  · intro hkept
    rcases hkept _ (hbefore ▸ List.mem_singleton.mpr rfl) with
      ⟨entry, hentry, -, htargets⟩ | ⟨target, haccepted, -⟩ | hrefused
    · rw [hafter, List.mem_singleton] at hentry
      rw [hentry] at htargets
      exact absurd htargets (by decide)
    · exact absurd haccepted (List.not_mem_nil)
    · exact absurd hrefused (List.not_mem_nil)
  · intro hpromised
    obtain ⟨entry, hentry, -, htargets⟩ := hpromised 0
      { event := noteA, options := toRelayA,
        phase := .settled (.ok {
          accepted := false, remoteAccepted := false, queued := true,
          sources := [{ id := "wss://a.example/", accepted := false, error := some "blocked" }] }),
        attempts := [⟨.relay "wss://a.example/", true⟩],
        outcomes := [{ id := "wss://a.example/", accepted := false, error := some "blocked" }],
        accepted := some false } _ ⟨by decide +kernel, by decide +kernel⟩ rfl rfl
    rw [hlast, List.mem_singleton] at hentry
    rw [hentry] at htargets
    exact absurd htargets (by decide)

end NostrRuntime

end NostrPubsub.Runtime
