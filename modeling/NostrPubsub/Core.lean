import Mathlib.Algebra.Order.Monoid.Unbundled.WithTop
import Mathlib.Data.FinEnum
import Mathlib.Data.Fintype.Vector
import Mathlib.Data.List.Lex
import Mathlib.Data.Prod.Lex
import Mathlib.Data.Vector.Basic
import Mathlib.Order.Lattice.Nat
import NostrPubsub.ToMathlib.Fifo

/-!
# Events, errors and sources

The types of `nostr-pubsub/src/lib.rs` that the mesh and its carriers share, and the parts
of the `nostr` crate they rest on. Signature verification and the JSON form of an event
belong to that crate; they are the two fields of `NostrCrate`, and every result below is
stated for an arbitrary one.

Clock values, sizes and kinds are natural numbers. Where the source saturates at the end of
a machine type, the model does so explicitly (`satAdd`).
-/

namespace NostrPubsub

/-- A `HashMap<String, ν>`: a finite map with no iteration order. -/
abbrev Table (ν : Type) := Finmap fun _ : String => ν

/-- `u64::MAX`. -/
def u64Max : ℕ := 2 ^ 64 - 1

/-- `u32::MAX`. -/
def u32Max : ℕ := 2 ^ 32 - 1

/-- `u64::saturating_add`. -/
def satAdd (a b : ℕ) : ℕ := min (a + b) u64Max

theorem satAdd_le_satAdd {a b : ℕ} (h : a ≤ b) (c : ℕ) : satAdd a c ≤ satAdd b c := by
  unfold satAdd
  omega

/-- `u64::saturating_mul`. -/
def satMul (a b : ℕ) : ℕ := min (a * b) u64Max

/-- `i32::saturating_add`. -/
def satAddI32 (a b : ℤ) : ℤ := max (-2 ^ 31) (min (2 ^ 31 - 1) (a + b))

/-- `PubsubError`. -/
inductive PubsubError where
  | validation (message : String)
  | storage (message : String)
  deriving DecidableEq, Repr

/-! ## Events -/

/-- The 32 bytes of an event id. -/
abbrev EventId := List.Vector UInt8 32

instance : LawfulBEq EventId := inferInstance

/-- The lowercase hexadecimal digit of a number below 16. -/
def hexDigit (n : ℕ) : Char :=
  ['0', '1', '2', '3', '4', '5', '6', '7', '8', '9', 'a', 'b', 'c', 'd', 'e', 'f'].getD n '0'

/-- The two lowercase hexadecimal digits of a byte. -/
def hexByte (b : UInt8) : List Char := [hexDigit (b.toNat / 16), hexDigit (b.toNat % 16)]

/-- `EventId::to_hex`. -/
def EventId.toHex (id : EventId) : String := String.ofList (id.toList.flatMap hexByte)

/-- A signed event, with the fields of `nostr::Event`. -/
structure Event where
  id : EventId
  pubkey : List.Vector UInt8 32
  createdAt : ℕ
  kind : ℕ
  tags : List (List String)
  content : String
  sig : List.Vector UInt8 64
  deriving DecidableEq

/-- What the mesh uses of the `nostr` crate. -/
structure NostrCrate where
  /-- `Event::verify`: the id and the signature are those of the event. -/
  verify : Event → Except String Unit
  /-- `serde_json::to_vec` of an event. -/
  toJson : Event → Except String (List UInt8)
  /-- `Tags::identifier`. -/
  identifier : List (List String) → Option String

/-- An event that passed `Event::verify`. -/
structure VerifiedEvent (nostr : NostrCrate) where
  event : Event
  verified : nostr.verify event = .ok ()
  deriving DecidableEq

/-- `VerifiedEvent::try_from`. -/
def VerifiedEvent.tryFrom (nostr : NostrCrate) (event : Event) :
    Except PubsubError (VerifiedEvent nostr) :=
  match h : nostr.verify event with
  | .ok () => .ok ⟨event, h⟩
  | .error error => .error (.validation s!"invalid Nostr event: {error}")

theorem VerifiedEvent.tryFrom_event {nostr : NostrCrate} (event : VerifiedEvent nostr) :
    VerifiedEvent.tryFrom nostr event.event = .ok event := by
  unfold VerifiedEvent.tryFrom
  split
  · rfl
  · rename_i error herror
    rw [event.verified] at herror
    cases herror

/-! ## Hexadecimal ids -/

theorem hexDigit_injOn {m n : ℕ} (hm : m < 16) (hn : n < 16) (h : hexDigit m = hexDigit n) :
    m = n := by
  have hall : ∀ i < 16, ∀ j < 16, hexDigit i = hexDigit j → i = j := by decide
  exact hall m hm n hn h

theorem hexByte_injective : Function.Injective hexByte := by
  intro a b h
  simp only [hexByte, List.cons.injEq, and_true] at h
  have ha := a.toNat_lt
  have hb := b.toNat_lt
  have hdiv := hexDigit_injOn (by omega) (by omega) h.1
  have hmod := hexDigit_injOn (by omega) (by omega) h.2
  exact UInt8.toNat_inj.mp (by omega)

/-- Distinct byte strings have distinct hexadecimal forms. -/
theorem flatMap_hexByte_injective :
    Function.Injective fun bytes : List UInt8 => bytes.flatMap hexByte := by
  intro a
  induction a with
  | nil =>
    intro b h
    cases b with
    | nil => rfl
    | cons y ys => simp [hexByte] at h
  | cons x xs ih =>
    intro b h
    cases b with
    | nil => simp [hexByte] at h
    | cons y ys =>
      simp only [List.flatMap_cons] at h
      obtain ⟨hxy, hrest⟩ := List.append_inj h (by simp [hexByte])
      rw [hexByte_injective hxy, ih hrest]

theorem EventId.toHex_injective : Function.Injective EventId.toHex := by
  intro a b h
  apply List.Vector.toList_injective
  exact flatMap_hexByte_injective (String.ofList_injective h)

/-! ## The order of events -/

/-- The bytes of an id as numbers: ids are compared byte by byte. -/
def EventId.key (id : EventId) : List ℕ := id.toList.map UInt8.toNat

/-- The place of an event in stores and query results: `created_at` descending, then id ascending. -/
def Event.rank (event : Event) : ℕᵒᵈ ×ₗ List ℕ :=
  toLex (OrderDual.toDual event.createdAt, EventId.key event.id)

theorem EventId.key_injective : Function.Injective EventId.key := by
  intro a b h
  apply List.Vector.toList_injective
  exact List.map_injective_iff.mpr (fun x y hxy => UInt8.toNat_inj.mp hxy) h

/-- Events of one place have one id. -/
theorem Event.id_eq_of_rank_eq {a b : Event} (h : a.rank = b.rank) : a.id = b.id := by
  have hpair := toLex.injective h
  exact EventId.key_injective (congrArg Prod.snd hpair)

/-! ## Sources, policies and query results -/

/-- `EventSourceKind`. -/
inductive EventSourceKind where
  | localIndex
  | peer
  | fipsEndpoint
  | relay
  deriving DecidableEq, Repr

/-- `EventSourceKind::default_priority`. -/
def EventSourceKind.defaultPriority : EventSourceKind → ℤ
  | .localIndex => 300
  | .fipsEndpoint => 200
  | .peer => 100
  | .relay => -100

/-- `EventSource`. -/
structure EventSource where
  id : String
  kind : EventSourceKind
  url : Option String
  deriving DecidableEq

/-- `EventSource::fips_endpoint`. -/
def EventSource.ofFipsEndpoint (id : String) : EventSource :=
  { id, kind := .fipsEndpoint, url := none }

/-- `PolicyDecision`. -/
inductive PolicyDecision where
  | allow (priority : ℤ)
  | throttle (priority : ℤ) (reason : String)
  | drop (reason : String)
  deriving DecidableEq, Repr

/-- `PublishReport`. -/
structure PublishReport where
  accepted : Bool
  priority : ℤ
  reason : Option String
  deriving DecidableEq

/-- `QueryEvent`. -/
structure QueryEvent (nostr : NostrCrate) where
  event : VerifiedEvent nostr
  source : EventSource
  priority : ℤ
  deriving DecidableEq

/-! ## Filters -/

/-- `nostr::Filter`. The time window and the limit are what this crate reads; the remaining
criteria (ids, authors, kinds, tags, search) decide by the event alone. -/
structure Filter where
  /-- Whether the event meets every criterion other than the time window. -/
  criteria : Event → Bool
  since : Option ℕ
  until_ : Option ℕ
  limit : Option ℕ

/-- `Filter::match_event`. Both ends of the time window are inclusive. -/
def Filter.matchEvent (filter : Filter) (event : Event) : Bool :=
  filter.criteria event
    && filter.since.all (fun since => decide (since ≤ event.createdAt))
    && filter.until_.all (fun until_ => decide (event.createdAt ≤ until_))

/-! ## Two signed notes

Concrete events for the runs that show a hypothesis or a failure to occur. -/

/-- The public key of the secret key 3. -/
def noteAuthor : List.Vector UInt8 32 :=
  ⟨[249, 48, 138, 1, 146, 88, 195, 16, 73, 52, 79, 133, 248, 157, 82, 41, 181, 49, 200, 69, 131,
    111, 153, 176, 134, 1, 241, 19, 188, 224, 54, 249], rfl⟩

/-- A signed text note, with its real id and signature. -/
def noteA : Event where
  id :=
    ⟨[54, 33, 130, 12, 140, 230, 209, 74, 97, 209, 221, 227, 202, 159, 165, 192, 112, 0, 115, 55,
      168, 224, 15, 191, 110, 165, 37, 197, 115, 35, 212, 193], rfl⟩
  pubkey := noteAuthor
  createdAt := 1
  kind := 1
  tags := []
  content := "a"
  sig :=
    ⟨[40, 108, 253, 10, 230, 57, 165, 124, 71, 40, 102, 240, 248, 225, 73, 145, 48, 128, 143, 60,
      194, 163, 126, 60, 236, 231, 59, 3, 108, 126, 31, 32, 57, 145, 31, 92, 160, 226, 125, 162,
      236, 60, 56, 76, 227, 224, 162, 77, 223, 194, 91, 236, 20, 73, 99, 161, 31, 7, 55, 168,
      141, 128, 243, 136], rfl⟩

/-- Another signed text note of the same author. -/
def noteB : Event where
  id :=
    ⟨[2, 125, 55, 170, 31, 225, 226, 175, 191, 254, 1, 248, 117, 129, 90, 55, 250, 48, 183, 186,
      91, 240, 186, 52, 151, 159, 158, 46, 126, 31, 126, 54], rfl⟩
  pubkey := noteAuthor
  createdAt := 2
  kind := 1
  tags := []
  content := "b"
  sig :=
    ⟨[166, 194, 180, 44, 208, 115, 33, 29, 17, 16, 100, 57, 210, 89, 219, 193, 34, 210, 158, 123,
      54, 86, 151, 112, 46, 244, 97, 129, 134, 191, 59, 88, 125, 27, 235, 139, 91, 194, 190, 99,
      132, 185, 93, 222, 8, 198, 182, 210, 85, 173, 55, 32, 69, 174, 39, 161, 124, 232, 78, 59,
      205, 142, 132, 241], rfl⟩

/-- The bytes of a text. -/
def utf8Bytes (text : String) : List UInt8 := text.toByteArray.data.toList

/-- The bytes of the hexadecimal form of a byte string. -/
def hexBytes (bytes : List UInt8) : List UInt8 :=
  (bytes.flatMap hexByte).map fun c => UInt8.ofNat c.toNat

/-- The JSON form of an event without tags whose content needs no escapes. -/
def Event.plainJson (event : Event) : List UInt8 :=
  utf8Bytes "\x7b\"id\":\"" ++ hexBytes event.id.toList
    ++ utf8Bytes "\",\"pubkey\":\"" ++ hexBytes event.pubkey.toList
    ++ utf8Bytes "\",\"created_at\":" ++ utf8Bytes (toString event.createdAt)
    ++ utf8Bytes ",\"kind\":" ++ utf8Bytes (toString event.kind)
    ++ utf8Bytes ",\"tags\":[],\"content\":\"" ++ utf8Bytes event.content
    ++ utf8Bytes "\",\"sig\":\"" ++ hexBytes event.sig.toList ++ utf8Bytes "\"\x7d"

/-- The value of the first `d` tag. -/
def firstIdentifier (tags : List (List String)) : Option String :=
  (tags.find? fun tag => tag.head? = some "d").bind (·[1]?)

/-- The crate as it behaves on the two notes: both verify, nothing else does, and their JSON
form is plain. -/
def noteCrate : NostrCrate where
  verify event :=
    if event = noteA ∨ event = noteB then .ok () else .error "Invalid signature"
  toJson event := .ok event.plainJson
  identifier := firstIdentifier

theorem noteCrate_verify {event : Event} (h : noteCrate.verify event = .ok ()) :
    event = noteA ∨ event = noteB := by
  by_contra hother
  simp [noteCrate, hother] at h

def verifiedA : VerifiedEvent noteCrate := ⟨noteA, by decide +kernel⟩

def verifiedB : VerifiedEvent noteCrate := ⟨noteB, by decide +kernel⟩

/-! ## Many events -/

/-- JSON forms as `serde_json` writes them for events without tags and escapes. Ids and
signatures are taken as they come. -/
def plainCrate : NostrCrate where
  verify _ := .ok ()
  toJson event := .ok event.plainJson
  identifier := firstIdentifier

/-- An event without tags, told from others by two bytes of its id. -/
def plainEvent (first second : UInt8) (kind createdAt : ℕ) (content : String) :
    VerifiedEvent plainCrate where
  event :=
    { id := ⟨first :: second :: List.replicate 30 0, rfl⟩
      pubkey := noteAuthor
      createdAt
      kind
      tags := []
      content
      sig := ⟨List.replicate 64 0, rfl⟩ }
  verified := rfl

end NostrPubsub
