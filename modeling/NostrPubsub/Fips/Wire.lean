import Mathlib.Data.String.Basic
import NostrPubsub.Core
import NostrPubsub.ToMathlib.Finmap

/-!
# Messages between FIPS clients

`FipsPubsubWireMessage` of `nostr-pubsub/src/wire.rs`, and the filters of the `nostr` crate with the
criteria that a client looks at by name.
-/

namespace NostrPubsub.Fips

/-- `nostr::PublicKey`. -/
abbrev PublicKey := List.Vector UInt8 32

/-- `PublicKey::to_hex`. -/
def PublicKey.toHex (key : PublicKey) : String := EventId.toHex key

/-! ## Filters -/

/-- `nostr::Filter`, with its criteria by name. -/
structure WireFilter where
  ids : Option (Finset EventId) := none
  authors : Option (Finset PublicKey) := none
  kinds : Option (Finset ℕ) := none
  search : Option String := none
  since : Option ℕ := none
  until_ : Option ℕ := none
  limit : Option ℕ := none
  /-- The values by the letter of the tag. -/
  genericTags : Finmap fun _ : Char => Finset String := ∅
  deriving DecidableEq

namespace WireFilter

/-- `serde_json::to_value(filter).get(name)`, for the fields whose values are lists of texts. The
tags of a filter have one letter. -/
def get (filter : WireFilter) (name : String) : Option (List String) :=
  if name = "authors" then filter.authors.map fun keys => (keys.image PublicKey.toHex).ascending
  else
    match name.toList with
    | ['#', letter] => (filter.genericTags.lookup letter).map Finset.ascending
    | _ => none

/-- The filter that decides about events: `criteria` says which events meet what is given by name. -/
def toFilter (criteria : WireFilter → Event → Bool) (filter : WireFilter) : Filter where
  criteria := criteria filter
  since := filter.since
  until_ := filter.until_
  limit := filter.limit

end WireFilter

/-- `subscription_filters_match`. -/
def filtersMatch (criteria : WireFilter → Event → Bool) (filters : List WireFilter) (event : Event) :
    Bool :=
  filters.any fun filter => (filter.toFilter criteria).matchEvent event

/-! ## Messages -/

/-- `FipsPubsubWireMessage`. -/
inductive FipsPubsubWireMessage (nostr : NostrCrate) where
  | req (subscriptionId : String) (filters : List WireFilter)
  | close (subscriptionId : String)
  | event (subscriptionId : Option String) (event : VerifiedEvent nostr)
  | ok (eventId : EventId) (accepted : Bool) (message : String)
  | inv (subscriptionIds : List String) (eventId : EventId) (eventKind : UInt16)
      (payloadBytes : UInt32) (hopLimit : UInt8)
  | want (eventId : EventId)
  deriving DecidableEq

/-- A frame: the payload of one transport record. -/
abbrev Frame := List UInt8

end NostrPubsub.Fips
