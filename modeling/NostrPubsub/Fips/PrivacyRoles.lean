import NostrPubsub.Fips.AnonymousPublication
import NostrPubsub.Fips.Wire

/-!
# Privacy roles

`privacy_roles.rs` of the FIPS client: what a client may subscribe to, export and send, by its role.
-/

namespace NostrPubsub.Fips

variable {nostr : NostrCrate}

/-- `FipsDiscoveryScope`. -/
inductive FipsDiscoveryScope where
  | author (key : PublicKey)
  | device (key : PublicKey)
  deriving DecidableEq

/-- The kinds that a lookup by author may name. -/
def authorLookupKinds : List ℕ := [0, 1059, 10002, 10050, 30078, 37368, 37195]

/-- Whether a lookup in the scope may name the kind. -/
def FipsDiscoveryScope.allowsKind : FipsDiscoveryScope → ℕ → Bool
  | .author _, kind => decide (kind ∈ authorLookupKinds)
  | .device _, kind => decide (kind = 37368)

/-- `FipsDiscoveryScope::validate`. -/
def FipsDiscoveryScope.validate (scope : FipsDiscoveryScope) (filter : WireFilter) :
    Except PubsubError Unit :=
  let (field, forbidden, key) := match scope with
    | .author key => ("authors", "#p", key)
    | .device key => ("#p", "authors", key)
  let validKey : Bool := filter.get field == some [key.toHex]
  let allowed : Bool := filter.kinds.any fun kinds =>
    decide (kinds.Nonempty ∧ ∀ kind ∈ kinds, scope.allowsKind kind = true)
  let groupType : Bool := (filter.get "#type").any fun values => values.any (· == "group_roster")
  let groupRoster : Bool := groupType || (filter.get "#d").any fun values =>
    values.any fun value => value.startsWith "group_roster"
  if ¬ validKey ∨ ¬ allowed ∨ (filter.get forbidden).isSome ∨ groupRoster then
    .error (invalidOption "discovery filter crosses its single public subject")
  else .ok ()

/-- `ClientRole`. -/
inductive ClientRole where
  | full
  | receiver (publicAuthors : List PublicKey)
  | discovery (scope : FipsDiscoveryScope)
  | publisher
  deriving DecidableEq

/-- `ADVERT_KIND` and `ADVERT_IDENTIFIER` of `fips-core`. -/
structure AdvertFilter where
  kind : ℕ
  identifier : String

/-- `default_peerfinding_filter`. -/
def AdvertFilter.default (advert : AdvertFilter) : WireFilter :=
  { kinds := some {advert.kind}, genericTags := Finmap.singleton 'd' {advert.identifier} }

namespace ClientRole

/-- `ClientRole::advertises`. -/
def advertises (role : ClientRole) : Bool := role == .full

/-- The part of `validate_filters` for a receiver. -/
def receiverAllows (publicAuthors : List PublicKey) (filter : WireFilter) : Bool :=
  let explicitlyPublic : Bool := filter.authors.any fun authors =>
    decide (authors.Nonempty ∧ ∀ author ∈ authors, author ∈ publicAuthors)
  filter.kinds.any fun kinds => decide (kinds.Nonempty ∧ ∀ kind ∈ kinds,
    if isPrivate kind then
      (filter.get "#p").isSome ∨ filter.authors.any fun authors => decide authors.Nonempty
    else if kind = 30078 ∨ kind = 37368 then explicitlyPublic = true
    else if kind = 0 ∨ kind = 10002 ∨ kind = 10050 ∨ kind = 37195 then
      explicitlyPublic = true ∨ (filter.authors = none ∧ filter.get "#p" = none)
    else filter.authors = none ∨ explicitlyPublic = true)

/-- The turn of `validate_filters` for a filter other than the one of peer finding. -/
def validateFilter (role : ClientRole) (filter : WireFilter) : Except PubsubError Unit := do
  let allowed ← match role with
    | .full => pure true
    | .publisher => pure false
    | .discovery scope => do
      scope.validate filter
      pure true
    | .receiver publicAuthors => pure (receiverAllows publicAuthors filter)
  if allowed then pure ()
  else throw (invalidOption "subscription is not allowed on this FIPS privacy role")

/-- `ClientRole::validate_filters`. -/
def validateFilters (advert : AdvertFilter) (role : ClientRole) :
    List WireFilter → Except PubsubError Unit
  | [] => .ok ()
  | filter :: rest =>
    if { filter with limit := none } = advert.default then validateFilters advert role rest
    else do
      role.validateFilter filter
      validateFilters advert role rest

/-- `ClientRole::can_export`. -/
def canExport (role : ClientRole) (event : VerifiedEvent nostr) : Bool :=
  match role with
  | .full => true
  | .receiver authors => !isPrivate event.event.kind && decide (event.event.pubkey ∈ authors)
  | .discovery _ | .publisher => false

/-- `ClientRole::validate_publication`. -/
def validatePublication (role : ClientRole) (event : VerifiedEvent nostr) : Except PubsubError Unit :=
  if role.canExport event then .ok ()
  else .error (invalidOption "publication is not allowed on this FIPS privacy role")

/-- `validate_outbound`, of a decoded message. `cached` is the lookup in the recent events. -/
def allows (advert : AdvertFilter) (role : ClientRole) (publications : Publications)
    (cached : EventId → Option (VerifiedEvent nostr)) (peer : String) :
    FipsPubsubWireMessage nostr → Except PubsubError Unit := fun message => do
  let allowed ← match role, message with
    | .full, _ | _, .close _ | .receiver _, .want _ | .discovery _, .want _ => pure true
    | _, .req _ filters => do
      role.validateFilters advert filters
      pure true
    | .receiver _, .event _ event => pure (role.canExport event)
    | .receiver _, .inv _ eventId eventKind _ _ =>
      pure ((cached eventId).any fun event =>
        decide (event.event.kind = eventKind.toNat) && role.canExport event)
    | .publisher, .event none event => pure (maySendPublication event.event.id peer publications)
    | _, _ => pure false
  if allowed then pure ()
  else throw (invalidOption "outbound frame is not allowed on this FIPS privacy role")

end ClientRole

end NostrPubsub.Fips
