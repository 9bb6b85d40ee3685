import NostrPubsub.Core
import NostrPubsub.ToMathlib.Mealy

/-!
# The verification cache

`EventVerificationCache` of `nostr-pubsub/src/lib.rs` keeps the signatures of events that passed
`Event::verify`. For an event whose id and signature it has it only recomputes the id.

That is enough because the id covers the author: an event with a verified id and the id and signature
of one that was verified before has its body, and so its signature is valid too
(`verification_cache_invisible`). Recomputing the id and checking the signature belong to the `nostr`
crate; what is used of them is `VerifiesBy`.
-/

namespace NostrPubsub

/-- What the id of an event is the hash of. -/
structure EventBody where
  pubkey : List.Vector UInt8 32
  createdAt : ℕ
  kind : ℕ
  tags : List (List String)
  content : String
  deriving DecidableEq

def Event.body (event : Event) : EventBody :=
  { pubkey := event.pubkey, createdAt := event.createdAt, kind := event.kind, tags := event.tags,
    content := event.content }

theorem VerifiedEvent.tryFrom_eq_ok {nostr : NostrCrate} {event : Event}
    {verified : VerifiedEvent nostr} :
    VerifiedEvent.tryFrom nostr event = .ok verified ↔ verified.event = event := by
  constructor
  · intro h
    unfold VerifiedEvent.tryFrom at h
    split at h
    · cases h
      rfl
    · cases h
  · rintro rfl
    exact verified.tryFrom_event

/-- `Event::verify` recomputes the id and checks the signature of the author. -/
def VerifiesBy (nostr : NostrCrate) (computeId : EventBody → EventId)
    (verifySignature : EventId → List.Vector UInt8 32 → List.Vector UInt8 64 → Bool) : Prop :=
  ∀ event, nostr.verify event = .ok () ↔
    computeId event.body = event.id ∧ verifySignature event.id event.pubkey event.sig = true

/-- `VERIFICATION_CACHE_CAPACITY`. -/
def verificationCacheCapacity : ℕ := 512

/-- `EventVerificationCache`. -/
structure EventVerificationCache where
  signatures : Finmap fun _ : EventId => List.Vector UInt8 64
  order : List EventId

namespace EventVerificationCache

/-- `EventVerificationCache::default`. -/
def default : EventVerificationCache := { signatures := ∅, order := [] }

/-- Drop the oldest id of a full cache. -/
def makeRoom (cache : EventVerificationCache) : EventVerificationCache :=
  match cache.order with
  | oldest :: rest =>
    if cache.order.length = verificationCacheCapacity then
      { signatures := cache.signatures.erase oldest, order := rest }
    else cache
  | [] => cache

/-- What `verify` does with an event that passed `Event::verify`. -/
def remember (event : Event) (cache : EventVerificationCache) : EventVerificationCache :=
  if event.id ∈ cache.signatures then
    { cache with signatures := cache.signatures.insert event.id event.sig }
  else
    let cache := cache.makeRoom
    { signatures := cache.signatures.insert event.id event.sig, order := cache.order ++ [event.id] }

/-- `EventVerificationCache::verify`. A hit makes a verified event of an event that was not verified,
so the result is the bare event. -/
def verify (nostr : NostrCrate) (computeId : EventBody → EventId) (event : Event)
    (cache : EventVerificationCache) : Except PubsubError Event × EventVerificationCache :=
  if cache.signatures.lookup event.id = some event.sig then
    if computeId event.body ≠ event.id then (.error (.validation "invalid Nostr event ID"), cache)
    else (.ok event, cache)
  else
    match VerifiedEvent.tryFrom nostr event with
    | .error error => (.error error, cache)
    | .ok verified => (.ok verified.event, cache.remember verified.event)

/-- The cache after a sequence of events. -/
def afterAll (nostr : NostrCrate) (computeId : EventBody → EventId) (events : List Event) :
    EventVerificationCache :=
  Mealy.after (fun event cache => cache.verify nostr computeId event) default events

variable {nostr : NostrCrate} {computeId : EventBody → EventId}

/-- What holds of a cache after a sequence of events. -/
structure Sound (nostr : NostrCrate) (events : List Event) (cache : EventVerificationCache) : Prop where
  enumerates : Enumerates cache.order cache.signatures
  bounded : cache.signatures.size ≤ verificationCacheCapacity
  verified : ∀ id sig, cache.signatures.lookup id = some sig →
    ∃ event ∈ events, event.id = id ∧ event.sig = sig ∧ nostr.verify event = .ok ()

theorem sound_default : Sound nostr [] default where
  enumerates := .empty
  bounded := by
    rw [default, Finmap.size_empty]
    exact Nat.zero_le _
  verified := by
    intro id sig h
    rw [default, Finmap.lookup_empty] at h
    cases h

variable {events : List Event} {cache : EventVerificationCache}

theorem Sound.mono (h : Sound nostr events cache) (event : Event) :
    Sound nostr (events ++ [event]) cache where
  enumerates := h.enumerates
  bounded := h.bounded
  verified := by
    intro id sig hlookup
    obtain ⟨old, hold, hverified⟩ := h.verified id sig hlookup
    exact ⟨old, List.mem_append_left _ hold, hverified⟩

theorem Sound.of_insert {signatures : Finmap fun _ : EventId => List.Vector UInt8 64}
    {order : List EventId} (h : Sound nostr events cache) {event : Event}
    (hverified : nostr.verify event = .ok ())
    (henumerates : Enumerates order (signatures.insert event.id event.sig))
    (hbounded : (signatures.insert event.id event.sig).size ≤ verificationCacheCapacity)
    (hkept : ∀ id sig, signatures.lookup id = some sig → cache.signatures.lookup id = some sig) :
    Sound nostr (events ++ [event])
      { signatures := signatures.insert event.id event.sig, order } where
  enumerates := henumerates
  bounded := hbounded
  verified := by
    intro id sig hlookup
    rcases Finmap.lookup_insert_eq_some.mp hlookup with ⟨rfl, rfl⟩ | ⟨-, hold⟩
    · exact ⟨event, by simp, rfl, rfl, hverified⟩
    · obtain ⟨old, hmem, hold⟩ := h.verified id sig (hkept id sig hold)
      exact ⟨old, List.mem_append_left _ hmem, hold⟩

/-- The cache without its oldest id has room for another. -/
theorem Sound.makeRoom (h : Sound nostr events cache) :
    Enumerates cache.makeRoom.order cache.makeRoom.signatures ∧
      cache.makeRoom.signatures.size < verificationCacheCapacity ∧
      ∀ id sig, cache.makeRoom.signatures.lookup id = some sig →
        cache.signatures.lookup id = some sig := by
  have hlength := h.enumerates.length_eq
  unfold EventVerificationCache.makeRoom
  split
  · next oldest rest horder =>
    have henumerates := h.enumerates
    rw [horder] at henumerates hlength
    split
    · next hfull =>
      rw [horder] at hfull
      refine ⟨henumerates.pop, ?_, fun id sig hlookup => (Finmap.lookup_erase_eq_some.mp hlookup).2⟩
      rw [← henumerates.pop.length_eq, ← hfull]
      exact Nat.lt_succ_self _
    · next hroom =>
      rw [horder, hlength] at hroom
      exact ⟨h.enumerates, Nat.lt_of_le_of_ne h.bounded hroom, fun _ _ => id⟩
  · next horder =>
    rw [horder] at hlength
    refine ⟨h.enumerates, ?_, fun _ _ => id⟩
    rw [← hlength]
    decide

/-- A verified event takes the place of the one with its id, or comes last. -/
theorem Sound.remember (h : Sound nostr events cache) {event : Event}
    (hverified : nostr.verify event = .ok ()) :
    Sound nostr (events ++ [event]) (cache.remember event) := by
  unfold EventVerificationCache.remember
  split
  · next hknown =>
    refine h.of_insert hverified (h.enumerates.replace hknown _) ?_ fun _ _ => id
    rw [Finmap.size_insert_of_mem hknown]
    exact h.bounded
  · next hnew =>
    obtain ⟨henumerates, hroom, hkept⟩ := h.makeRoom
    have hoff : event.id ∉ cache.makeRoom.signatures := by
      intro hmem
      obtain ⟨sig, hsig⟩ := Finmap.mem_iff.mp hmem
      exact hnew (Finmap.mem_of_lookup_eq_some (hkept event.id sig hsig))
    refine h.of_insert hverified (henumerates.push hoff _) ?_ hkept
    rw [Finmap.size_insert_of_notMem hoff]
    exact hroom

/-- One call keeps what holds of the cache. -/
theorem Sound.verify (h : Sound nostr events cache) (event : Event) :
    Sound nostr (events ++ [event]) (cache.verify nostr computeId event).2 := by
  unfold EventVerificationCache.verify
  split
  · split
    · exact h.mono event
    · exact h.mono event
  · split
    · exact h.mono event
    · next verified hverified =>
      have hevent : verified.event = event := VerifiedEvent.tryFrom_eq_ok.mp hverified
      rw [hevent]
      exact h.remember (hevent ▸ verified.verified)

theorem sound_afterAll (events : List Event) :
    Sound nostr events (afterAll nostr computeId events) := by
  refine Mealy.history sound_default (fun before event hbefore => ?_) events
  exact hbefore.verify event

/-- A call returns the event exactly when it verifies. -/
theorem Sound.verify_eq_ok (h : Sound nostr events cache)
    {verifySignature : EventId → List.Vector UInt8 32 → List.Vector UInt8 64 → Bool}
    (hverifies : VerifiesBy nostr computeId verifySignature) {event : Event}
    (hinj : Set.InjOn computeId {body | ∃ e ∈ events ++ [event], e.body = body}) {result : Event} :
    (cache.verify nostr computeId event).1 = .ok result ↔
      ∃ verified, VerifiedEvent.tryFrom nostr event = .ok verified ∧ verified.event = result := by
  unfold EventVerificationCache.verify
  split
  · next hhit =>
    -- the signature belongs to an event with this id that was verified
    obtain ⟨old, hold, hid, hsig, hverified⟩ := h.verified event.id event.sig hhit
    obtain ⟨holdId, holdSig⟩ := (hverifies old).mp hverified
    split
    · next htampered =>
      constructor
      · intro hok
        cases hok
      · rintro ⟨verified, hverified, -⟩
        rw [VerifiedEvent.tryFrom_eq_ok] at hverified
        have hevent := (hverifies event).mp (hverified ▸ verified.verified)
        exact absurd hevent.1 htampered
    · next hcomputed =>
      rw [not_not] at hcomputed
      have hbody : event.body = old.body := by
        refine hinj ⟨event, by simp, rfl⟩ ⟨old, List.mem_append_left _ hold, rfl⟩ ?_
        rw [hcomputed, holdId, hid]
      have hpubkey : event.pubkey = old.pubkey := congrArg EventBody.pubkey hbody
      have hevent : nostr.verify event = .ok () := by
        refine (hverifies event).mpr ⟨hcomputed, ?_⟩
        rw [← hid, ← hsig, hpubkey]
        exact holdSig
      constructor
      · intro hok
        cases hok
        exact ⟨⟨event, hevent⟩, VerifiedEvent.tryFrom_eq_ok.mpr rfl, rfl⟩
      · rintro ⟨verified, hverified, rfl⟩
        rw [VerifiedEvent.tryFrom_eq_ok.mp hverified]
  · cases htry : VerifiedEvent.tryFrom nostr event with
    | error error =>
      constructor
      · intro hok
        cases hok
      · rintro ⟨verified, hverified, -⟩
        cases hverified
    | ok verified =>
      constructor
      · intro hok
        cases hok
        exact ⟨verified, rfl, rfl⟩
      · rintro ⟨other, hother, rfl⟩
        cases hother
        rfl

/-- After any sequence of events, a call returns an event exactly when `VerifiedEvent::try_from` does,
and the same one. The cache holds at most its capacity, its queue has each key once, and every
signature in it belongs to an event of the sequence that was verified. -/
theorem verification_cache_invisible
    {verifySignature : EventId → List.Vector UInt8 32 → List.Vector UInt8 64 → Bool}
    (hverifies : VerifiesBy nostr computeId verifySignature) (events : List Event) (event : Event)
    (hinj : Set.InjOn computeId {body | ∃ e ∈ events ++ [event], e.body = body}) :
    (∀ result, ((afterAll nostr computeId events).verify nostr computeId event).1 = .ok result ↔
      ∃ verified, VerifiedEvent.tryFrom nostr event = .ok verified ∧ verified.event = result) ∧
    (afterAll nostr computeId events).signatures.size ≤ verificationCacheCapacity ∧
    Enumerates (afterAll nostr computeId events).order (afterAll nostr computeId events).signatures ∧
    ∀ id sig, (afterAll nostr computeId events).signatures.lookup id = some sig →
      ∃ e ∈ events, e.id = id ∧ e.sig = sig ∧ nostr.verify e = .ok () := by
  have hsound := @sound_afterAll nostr computeId events
  exact ⟨fun result => hsound.verify_eq_ok hverifies hinj, hsound.bounded, hsound.enumerates,
    hsound.verified⟩

/-! ### Two notes and a forgery -/

/-- The ids of the two notes, as their bodies hash to them. -/
def noteId (body : EventBody) : EventId :=
  if body = noteA.body then noteA.id
  else if body = noteB.body then noteB.id
  else List.Vector.replicate 32 0

/-- The signatures of the two notes are those of their author. -/
def noteSignature (id : EventId) (pubkey : List.Vector UInt8 32) (sig : List.Vector UInt8 64) : Bool :=
  pubkey = noteAuthor && (id = noteA.id && sig = noteA.sig || id = noteB.id && sig = noteB.sig)

theorem eq_of_body {a b : Event} (hid : a.id = b.id) (hbody : a.body = b.body) (hsig : a.sig = b.sig) :
    a = b := by
  cases a
  cases b
  simp only [Event.body, EventBody.mk.injEq] at hid hbody hsig
  obtain ⟨rfl, rfl, rfl, rfl, rfl⟩ := hbody
  subst hid hsig
  rfl

theorem body_of_noteId {body : EventBody} :
    (noteId body = noteA.id → body = noteA.body) ∧ (noteId body = noteB.id → body = noteB.body) := by
  unfold noteId
  by_cases hA : body = noteA.body
  · rw [if_pos hA]
    exact ⟨fun _ => hA, fun h => absurd h (by decide +kernel)⟩
  · by_cases hB : body = noteB.body
    · rw [if_neg hA, if_pos hB]
      exact ⟨fun h => absurd h (by decide +kernel), fun _ => hB⟩
    · rw [if_neg hA, if_neg hB]
      exact ⟨fun h => absurd h (by decide +kernel), fun h => absurd h (by decide +kernel)⟩

theorem verifiesBy_note : VerifiesBy noteCrate noteId noteSignature := by
  intro event
  constructor
  · intro hverified
    rcases noteCrate_verify hverified with rfl | rfl
    · decide +kernel
    · decide +kernel
  · rintro ⟨hid, hsig⟩
    have hcase : event = noteA ∨ event = noteB := by
      simp only [noteSignature, Bool.and_eq_true, Bool.or_eq_true, decide_eq_true_eq] at hsig
      rcases hsig.2 with ⟨hidA, hsigA⟩ | ⟨hidB, hsigB⟩
      · exact .inl (eq_of_body hidA (body_of_noteId.1 (hid.trans hidA)) hsigA)
      · exact .inr (eq_of_body hidB (body_of_noteId.2 (hid.trans hidB)) hsigB)
    simp [noteCrate, hcase]

/-- A forgery with the id and the signature of a note that was verified. -/
def forgedNote : Event := { noteA with content := "forged" }

theorem noteId_injOn :
    Set.InjOn noteId {body | ∃ e ∈ [noteA, noteB] ++ [forgedNote], e.body = body} := by
  have hall : ∀ a ∈ [noteA, noteB] ++ [forgedNote], ∀ b ∈ [noteA, noteB] ++ [forgedNote],
      noteId a.body = noteId b.body → a.body = b.body := by decide +kernel
  rintro _ ⟨a, ha, rfl⟩ _ ⟨b, hb, rfl⟩ h
  exact hall a ha b hb h

theorem verification_cache_invisible_forged :
    (afterAll noteCrate noteId [noteA, noteB]).signatures.lookup forgedNote.id = some forgedNote.sig ∧
      ∀ result, ((afterAll noteCrate noteId [noteA, noteB]).verify noteCrate noteId forgedNote).1
        ≠ .ok result := by
  refine ⟨by decide +kernel, fun result hok => ?_⟩
  obtain ⟨verified, hverified, -⟩ := ((verification_cache_invisible verifiesBy_note [noteA, noteB]
    forgedNote noteId_injOn).1 result).mp hok
  rw [VerifiedEvent.tryFrom_eq_ok] at hverified
  have hforged : noteCrate.verify forgedNote = .ok () := hverified ▸ verified.verified
  exact absurd hforged (by decide +kernel)

end EventVerificationCache

end NostrPubsub
