import Mathlib.Data.Finset.Image
import Mathlib.Data.String.Basic
import NostrPubsub.Core
import NostrPubsub.ToMathlib.Leading

/-!
# Incentive plans over delivery records

`nostr-pubsub-sim/src/incentives.rs` and its `accepted_batch.rs`: the pricing of delivery
records and the two strategies that keep relationship credit, `OfflinePeerCredit` and
`AcceptedMintBatch`.

Of the report, the fields that neither strategy writes (prepayment, channels, pending
settlements) and the three distribution summaries over the endpoints are left out, and so
are the settings that only the other strategies read. A `usize` or `u64` is a natural
number, with the saturation of the source written out; the mixer works on `UInt64`.

The borrowed fields of `Plan` (strategy, roles, configuration) are parameters of the type
here, so that no operation can change them. Where the source indexes `roles` or a table of
endpoints out of range it panics; a list of valid records never does that, and the model
reads such a node as an honest one and leaves the tables alone.

## Main definitions

* `validateRecords`, `pricing`, `priceRecords`: the records and their price;
* `Plan` and its operations: the figures of a report under construction;
* `peerCreditRound`, `planPeerCredit`: one settlement group, and the whole strategy;
* `settleNet`, `acceptedBatchRound`, `planAcceptedMintBatch`: the same with netting across
  windows.
-/

namespace NostrPubsub.Sim

open Finmap (Enumeration)

/-! ## Inputs -/

/-- `NodeRole`. -/
inductive NodeRole where
  | peer
  | supernode
  | attacker
  deriving DecidableEq, Repr

/-- `VerifiedDeliveryRecord`, without its flag for ordinary-peer accounting. -/
structure VerifiedDeliveryRecord where
  eventId : String
  provider : ℕ
  receiver : ℕ
  payloadBytes : ℕ
  acceptedAtMs : ℕ
  deriving DecidableEq, Repr

/-- `MintDiscoveryScope`; `everyone` is the `Public` of the source. -/
inductive MintDiscoveryScope where
  | connectedPeers
  | everyone
  deriving DecidableEq, Repr

/-- `IncentiveStrategy`. -/
inductive IncentiveStrategy where
  | directVerifiedCashu
  | offlinePeerCredit
  | fixedPrepaidCashu
  | incrementalSpilman
  | acceptedMintBatch
  deriving DecidableEq, Repr

/-- `IncentiveStrategy::domain`. -/
def IncentiveStrategy.domain : IncentiveStrategy → UInt64
  | .directVerifiedCashu => 1
  | .offlinePeerCredit => 2
  | .fixedPrepaidCashu => 3
  | .incrementalSpilman => 4
  | .acceptedMintBatch => 5

/-- `IncentiveConfig`: the settings that pricing and the two credit strategies read. -/
structure IncentiveConfig where
  mintCount : ℕ := 4
  gatewayMint : Option ℕ := some 0
  offlineCreditCapSat : ℕ := 32
  batchIntervalMs : ℕ := 1000
  cashuMinSettlementSat : ℕ := 1
  sameMintFeeSat : ℕ := 0
  crossMintFeeSat : ℕ := 2
  paymentMessageBytes : ℕ := 96
  mintAdvertisementBytes : ℕ := 96
  mintDiscoveryScope : MintDiscoveryScope := .connectedPeers
  outageBasisPoints : ℕ := 800
  paymentDefaulterBasisPoints : ℕ := 500
  maxPaymentRetries : ℕ := 3
  paymentRetryMs : ℕ := 50
  settlementDeadlineMs : ℕ := 20000
  fakeClaimsPerAttacker : ℕ := 2
  fakeClaimValueSat : ℕ := 16
  seed : UInt64 := 0x5041594d454e5453

/-- `IncentiveError::InvalidReport`, the error of a bad list of records. -/
inductive IncentiveError where
  | invalidReport (message : String)
  deriving DecidableEq, Repr

/-- The checks of `validate_records` on one record, given the deliveries accepted so far. -/
def validateRecord (nodeCount : ℕ) (accepted : List (String × ℕ))
    (record : VerifiedDeliveryRecord) : Except IncentiveError (List (String × ℕ)) :=
  if nodeCount ≤ record.provider ∨ nodeCount ≤ record.receiver then
    .error (.invalidReport "delivery record node is out of range")
  else if record.provider = record.receiver ∨ record.payloadBytes = 0 then
    .error (.invalidReport "delivery record has no remote useful service")
  else if (record.eventId, record.receiver) ∈ accepted then
    .error (.invalidReport "duplicate first-acceptance delivery record")
  else .ok ((record.eventId, record.receiver) :: accepted)

/-- `validate_records`. -/
def validateRecords (records : List VerifiedDeliveryRecord) (nodeCount : ℕ) :
    Except IncentiveError Unit := do
  let _ ← records.foldlM (validateRecord nodeCount) []
  return ()

/-! ## Pricing -/

/-- `Pair`: who owes, and to whom. -/
structure Pair where
  payer : ℕ
  provider : ℕ
  deriving DecidableEq, Repr

namespace Pair

/-- The derived order of the source: by payer, then by provider. -/
def key (pair : Pair) : ℕ ×ₗ ℕ := toLex (pair.payer, pair.provider)

theorem key_injective : Function.Injective key := by
  rintro ⟨p, q⟩ ⟨p', q'⟩ h
  cases h
  rfl

instance : LinearOrder Pair := LinearOrder.lift' key key_injective

/-- The same two nodes with their roles exchanged. -/
def swap (pair : Pair) : Pair := ⟨pair.provider, pair.payer⟩

@[simp]
theorem swap_swap (pair : Pair) : pair.swap.swap = pair := rfl

end Pair

/-- `Obligation`. -/
structure Obligation where
  pair : Pair
  amountSat : ℕ
  acceptedAtMs : ℕ
  deriving DecidableEq, Repr

/-- `PricedWorkload`. -/
structure PricedWorkload where
  obligations : List Obligation
  usefulBytes : ℕ
  usefulValueSat : ℕ
  pricingDustBytes : ℕ
  deriving DecidableEq, Repr

/-- What the loop of `price_records` carries. -/
structure Pricing where
  remainders : Finmap fun _ : Pair => ℕ := ∅
  obligations : List Obligation := []
  usefulBytes : ℕ := 0
  usefulValueSat : ℕ := 0

/-- Who pays whom for a delivery: its receiver, and its immediate provider. -/
def VerifiedDeliveryRecord.pair (record : VerifiedDeliveryRecord) : Pair :=
  ⟨record.receiver, record.provider⟩

/-- The sort key of `price_records`. -/
def VerifiedDeliveryRecord.rank (record : VerifiedDeliveryRecord) : ℕ ×ₗ String ×ₗ ℕ ×ₗ ℕ :=
  toLex (record.acceptedAtMs,
    toLex (record.eventId, toLex (record.receiver, record.provider)))

/-- The bytes that `record` leaves its pair with, the old remainder included. -/
def Pricing.bytes (s : Pricing) (record : VerifiedDeliveryRecord) : ℕ :=
  satAdd ((s.remainders.lookup record.pair).getD 0) record.payloadBytes

/-- One pass of the loop of `price_records`. -/
def Pricing.add (bytesPerSat : ℕ) (s : Pricing) (record : VerifiedDeliveryRecord) : Pricing :=
  let amountSat := s.bytes record / bytesPerSat
  let s' : Pricing :=
    { s with
      usefulBytes := satAdd s.usefulBytes record.payloadBytes
      remainders := s.remainders.insert record.pair (s.bytes record % bytesPerSat) }
  if amountSat = 0 then s'
  else
    { s' with
      usefulValueSat := satAdd s.usefulValueSat amountSat
      obligations := s.obligations ++ [⟨record.pair, amountSat, record.acceptedAtMs⟩] }

/-- The state at the end of the loop of `price_records`. -/
def pricing (records : List VerifiedDeliveryRecord) (bytesPerSat : ℕ) : Pricing :=
  (sortByRank VerifiedDeliveryRecord.rank records).foldl (Pricing.add bytesPerSat) {}

/-- `price_records`. -/
def priceRecords (records : List VerifiedDeliveryRecord) (bytesPerSat : ℕ) : PricedWorkload :=
  let s := pricing records bytesPerSat
  { obligations := s.obligations
    usefulBytes := s.usefulBytes
    usefulValueSat := s.usefulValueSat
    pricingDustBytes := s.remainders.total fun _ remainder => remainder }

/-! ## Sampling -/

/-- `u64::rotate_left`. -/
def rotateLeft (value count : UInt64) : UInt64 :=
  value <<< count ||| value >>> (64 - count)

/-- `mix64`. -/
def mix64 (value : UInt64) : UInt64 :=
  let value := value + 0x9e3779b97f4a7c15
  let value := (value ^^^ value >>> 30) * 0xbf58476d1ce4e5b9
  let value := (value ^^^ value >>> 27) * 0x94d049bb133111eb
  value ^^^ value >>> 31

/-- `payer_will_default`. -/
def payerWillDefault (payer : ℕ) (roles : List NodeRole) (config : IncentiveConfig) : Bool :=
  if roles[payer]? = some .attacker then true
  else
    (mix64 (config.seed ^^^ rotateLeft (UInt64.ofNat payer) 29 ^^^ 0x44454641554c5453)).toNat
      % 10000 < config.paymentDefaulterBasisPoints

/-- `home_mint`. -/
def homeMint (node : ℕ) (config : IncentiveConfig) : ℕ :=
  (mix64 (config.seed ^^^ UInt64.ofNat node)).toNat % config.mintCount

/-- `MintRoute`. -/
inductive MintRoute where
  | same
  | cross
  deriving DecidableEq, Repr

/-- `mint_route`. -/
def mintRoute (pair : Pair) (config : IncentiveConfig) : MintRoute :=
  let payerHome := homeMint pair.payer config
  let providerHome := homeMint pair.provider config
  if payerHome = providerHome ∨ config.gatewayMint = some payerHome then .same else .cross

/-- `mint_accepting_nodes`. -/
def mintAcceptingNodes (nodeCount : ℕ) (config : IncentiveConfig) : List ℕ :=
  (List.range nodeCount).foldl
    (fun accepting node =>
      let home := homeMint node config
      let accepting := accepting.modify home (satAdd · 1)
      match config.gatewayMint with
      | some gateway =>
        if gateway = home then accepting else accepting.modify gateway (satAdd · 1)
      | none => accepting)
    (List.replicate config.mintCount 0)

/-- `basis_points`. -/
def basisPoints (numerator denominator : ℕ) : ℕ :=
  if denominator = 0 then 0 else min (numerator * 10000 / denominator) u32Max

/-! ## Plans -/

/-- `IncentiveReport`: the fields that the two credit strategies write. -/
structure IncentiveReport where
  usefulBytes : ℕ
  usefulValueSat : ℕ
  pricingDustBytes : ℕ
  pricedObligations : ℕ
  adversarialPayerCount : ℕ
  adversarialPayerValueSat : ℕ
  honestEarnedSat : ℕ := 0
  honestSettledByDeadlineSat : ℕ := 0
  honestEarnedSettledByDeadlineBasisPoints : ℕ := 0
  authorizationDeniedSat : ℕ := 0
  providerUnpaidExposureSat : ℕ := 0
  providerDefaultLossSat : ℕ := 0
  unpaidExposureSat : ℕ := 0
  defaultExposureSat : ℕ := 0
  maxPairUnpaidExposureSat : ℕ := 0
  peerCreditAcceptedSat : ℕ := 0
  peerCreditOutstandingSat : ℕ := 0
  maxPairPeerCreditSat : ℕ := 0
  sameMintSettlements : ℕ := 0
  crossMintSettlements : ℕ := 0
  reciprocalServiceSettledSat : ℕ := 0
  modeledFeesSat : ℕ := 0
  mintAdvertisementMessages : ℕ := 0
  mintAdvertisementBytes : ℕ := 0
  mintAcceptingNodes : List ℕ
  settlementAttempts : ℕ := 0
  paymentRetries : ℕ := 0
  paymentMessages : ℕ := 0
  paymentBytes : ℕ := 0
  paymentByteOverheadBasisPoints : ℕ := 0
  fakeClaimsAttempted : ℕ := 0
  fakeClaimedValueSat : ℕ := 0
  deriving DecidableEq, Repr

/-- `Plan`, with what it borrows as parameters. -/
structure Plan (strategy : IncentiveStrategy) (roles : List NodeRole)
    (config : IncentiveConfig) where
  report : IncentiveReport
  stateEntries : List ℕ
  endpointMessages : List ℕ
  endpointBytes : List ℕ
  unpaidByPair : Finmap fun _ : Pair => ℕ := ∅
  mintDiscoveryPairs : Finset Pair := ∅
  sequence : ℕ := 0

namespace Plan

variable {strategy : IncentiveStrategy} {roles : List NodeRole} {config : IncentiveConfig}

/-- `Plan::payer_will_default`. -/
def payerWillDefault (_plan : Plan strategy roles config) (pair : Pair) : Bool :=
  Sim.payerWillDefault pair.payer roles config

/-- `Plan::provider_is_honest`. -/
def providerIsHonest (_plan : Plan strategy roles config) (pair : Pair) : Bool :=
  roles[pair.provider]? ≠ some .attacker

/-- `Plan::earn`. -/
def earn (plan : Plan strategy roles config) (pair : Pair) (amountSat : ℕ) :
    Plan strategy roles config :=
  if plan.providerIsHonest pair then
    { plan with
      report.honestEarnedSat := satAdd plan.report.honestEarnedSat amountSat }
  else plan

/-- `Plan::deny`. -/
def deny (plan : Plan strategy roles config) (amountSat : ℕ) : Plan strategy roles config :=
  { plan with
    report.authorizationDeniedSat := satAdd plan.report.authorizationDeniedSat amountSat }

/-- `Plan::mark_settled`. -/
def markSettled (plan : Plan strategy roles config) (pair : Pair) (amountSat : ℕ) :
    Plan strategy roles config :=
  if plan.providerIsHonest pair then
    { plan with
      report.honestSettledByDeadlineSat :=
        satAdd plan.report.honestSettledByDeadlineSat amountSat }
  else plan

/-- The line both strategies add for service that pays for service. -/
def addReciprocal (plan : Plan strategy roles config) (amountSat : ℕ) :
    Plan strategy roles config :=
  { plan with
    report.reciprocalServiceSettledSat :=
      satAdd plan.report.reciprocalServiceSettledSat (satMul amountSat 2) }

/-- `Plan::record_state`. -/
def recordState (plan : Plan strategy roles config) (pair : Pair) : Plan strategy roles config :=
  { plan with
    stateEntries :=
      (plan.stateEntries.modify pair.payer (satAdd · 1)).modify pair.provider (satAdd · 1) }

/-- `Plan::record_endpoint_traffic`. -/
def recordEndpointTraffic (plan : Plan strategy roles config) (pair : Pair)
    (messages bytes : ℕ) : Plan strategy roles config :=
  { plan with
    report.paymentMessages := satAdd plan.report.paymentMessages messages
    report.paymentBytes := satAdd plan.report.paymentBytes bytes
    endpointMessages :=
      (plan.endpointMessages.modify pair.payer (satAdd · messages)).modify pair.provider
        (satAdd · messages)
    endpointBytes :=
      (plan.endpointBytes.modify pair.payer (satAdd · bytes)).modify pair.provider
        (satAdd · bytes) }

/-- `Plan::record_messages`. -/
def recordMessages (plan : Plan strategy roles config) (pair : Pair) (messages : ℕ) :
    Plan strategy roles config :=
  plan.recordEndpointTraffic pair messages (satMul messages config.paymentMessageBytes)

/-- `Plan::record_mint_discovery_pair`. -/
def recordMintDiscoveryPair (plan : Plan strategy roles config) (pair : Pair) :
    Plan strategy roles config :=
  if pair ∈ plan.mintDiscoveryPairs then plan
  else
    let messages := if config.mintDiscoveryScope = .everyone then 1 else 0
    let plan' : Plan strategy roles config :=
      { plan with
        mintDiscoveryPairs := insert pair plan.mintDiscoveryPairs
        report.mintAdvertisementMessages :=
          satAdd plan.report.mintAdvertisementMessages messages
        report.mintAdvertisementBytes :=
          satAdd plan.report.mintAdvertisementBytes config.mintAdvertisementBytes }
    plan'.recordEndpointTraffic pair messages config.mintAdvertisementBytes

/-- `Plan::record_public_mint_discovery`. -/
def recordPublicMintDiscovery (plan : Plan strategy roles config) : Plan strategy roles config :=
  if config.mintDiscoveryScope ≠ .everyone then plan
  else
    (List.range roles.length).foldl
      (fun plan provider =>
        (List.range roles.length).foldl
          (fun plan payer =>
            if payer ≠ provider then plan.recordMintDiscoveryPair ⟨payer, provider⟩ else plan)
          plan)
      plan

/-- `Plan::record_provider_exposure`. -/
def recordProviderExposure (plan : Plan strategy roles config) (amountSat : ℕ) (lost : Bool) :
    Plan strategy roles config :=
  let plan' : Plan strategy roles config :=
    { plan with
      report.providerUnpaidExposureSat :=
        max plan.report.providerUnpaidExposureSat amountSat }
  if lost then
    { plan' with
      report.providerDefaultLossSat := satAdd plan.report.providerDefaultLossSat amountSat }
  else plan'

/-- What `pair` leaves unpaid after `record_unpaid` of `amountSat` more. -/
def unpaidAfter (plan : Plan strategy roles config) (pair : Pair) (amountSat : ℕ) : ℕ :=
  satAdd ((plan.unpaidByPair.lookup pair).getD 0) amountSat

/-- `Plan::record_unpaid`; it returns `unpaidAfter` in the source. -/
def recordUnpaid (plan : Plan strategy roles config) (pair : Pair) (amountSat : ℕ) :
    Plan strategy roles config :=
  let outstandingSat := plan.unpaidAfter pair amountSat
  { plan with
    unpaidByPair := plan.unpaidByPair.insert pair outstandingSat
    report.unpaidExposureSat := satAdd plan.report.unpaidExposureSat amountSat
    report.maxPairUnpaidExposureSat := max plan.report.maxPairUnpaidExposureSat outstandingSat
    report.defaultExposureSat :=
      if plan.payerWillDefault pair then satAdd plan.report.defaultExposureSat amountSat
      else plan.report.defaultExposureSat }

/-- A settlement over `route`, counted with its fee. -/
def recordRoute (plan : Plan strategy roles config) (route : MintRoute) :
    Plan strategy roles config :=
  match route with
  | .same =>
    { plan with
      report.sameMintSettlements := satAdd plan.report.sameMintSettlements 1
      report.modeledFeesSat := satAdd plan.report.modeledFeesSat config.sameMintFeeSat }
  | .cross =>
    { plan with
      report.crossMintSettlements := satAdd plan.report.crossMintSettlements 1
      report.modeledFeesSat := satAdd plan.report.modeledFeesSat config.crossMintFeeSat }

/-- `Plan::record_route_settlement`. -/
def recordRouteSettlement (plan : Plan strategy roles config) (pair : Pair) :
    Plan strategy roles config :=
  plan.recordRoute (mintRoute pair config)

/-- `Plan::settle_with_route`. -/
def settleWithRoute (plan : Plan strategy roles config) (pair : Pair) (amountSat : ℕ) :
    Plan strategy roles config :=
  (plan.recordRouteSettlement pair).markSettled pair amountSat

/-- `Plan::payment_is_out`. -/
def paymentIsOut (_plan : Plan strategy roles config) (pair : Pair)
    (atMs phase sequence retry : ℕ) : Bool :=
  let sample := mix64 (config.seed
    ^^^ rotateLeft strategy.domain 7
    ^^^ rotateLeft (UInt64.ofNat pair.payer) 17
    ^^^ rotateLeft (UInt64.ofNat pair.provider) 31
    ^^^ rotateLeft (UInt64.ofNat atMs) 43
    ^^^ rotateLeft (UInt64.ofNat phase) 53
    ^^^ UInt64.ofNat sequence
    ^^^ rotateLeft (UInt64.ofNat retry) 11)
  sample.toNat % 10000 < config.outageBasisPoints

/-- What `try_settlement` records of one attempt. -/
def recordAttempt (plan : Plan strategy roles config) (pair : Pair) (retry : ℕ) :
    Plan strategy roles config :=
  let plan' : Plan strategy roles config :=
    { plan with
      report.settlementAttempts := satAdd plan.report.settlementAttempts 1
      report.paymentRetries :=
        if 0 < retry then satAdd plan.report.paymentRetries 1 else plan.report.paymentRetries }
  plan'.recordMessages pair 2

/-- The loop of `try_settlement`, over the retries still to make. -/
def attempts (pair : Pair) (dueMs phase sequence : ℕ) :
    List ℕ → Plan strategy roles config → Bool × Plan strategy roles config
  | [], plan => (false, plan)
  | retry :: rest, plan =>
    let atMs := satAdd dueMs (satMul retry config.paymentRetryMs)
    if config.settlementDeadlineMs < atMs then (false, plan)
    else if plan.paymentIsOut pair atMs phase sequence retry then
      attempts pair dueMs phase sequence rest (plan.recordAttempt pair retry)
    else (true, plan.recordAttempt pair retry)

/-- `Plan::try_settlement`: whether the payment went through, and the plan after it. -/
def trySettlement (plan : Plan strategy roles config) (pair : Pair) (dueMs phase : ℕ) :
    Bool × Plan strategy roles config :=
  let plan := plan.recordMintDiscoveryPair pair
  attempts pair dueMs phase plan.sequence (List.range (config.maxPaymentRetries + 1))
    { plan with sequence := satAdd plan.sequence 1 }

/-- `Plan::add_fake_claim_pressure`. -/
def addFakeClaimPressure (plan : Plan strategy roles config) : Plan strategy roles config :=
  match roles.findIdx? (fun role => role ≠ .attacker) with
  | none => plan
  | some honestTarget =>
    (List.range roles.length).foldl
      (fun (plan : Plan strategy roles config) attacker =>
        if roles[attacker]? ≠ some .attacker then plan
        else
          let claims := config.fakeClaimsPerAttacker
          let plan' : Plan strategy roles config :=
            { plan with
              report.fakeClaimsAttempted := satAdd plan.report.fakeClaimsAttempted claims
              report.fakeClaimedValueSat :=
                satAdd plan.report.fakeClaimedValueSat (satMul claims config.fakeClaimValueSat) }
          plan'.recordMessages ⟨honestTarget, attacker⟩ claims)
      plan

/-- `Plan::finish`. -/
def finish (plan : Plan strategy roles config) : IncentiveReport :=
  let report := plan.addFakeClaimPressure.report
  { report with
    honestEarnedSettledByDeadlineBasisPoints :=
      basisPoints report.honestSettledByDeadlineSat report.honestEarnedSat
    paymentByteOverheadBasisPoints := basisPoints report.paymentBytes report.usefulBytes }

/-- The payers of `workload` that will default. -/
def adversarialPayers (workload : PricedWorkload) (roles : List NodeRole)
    (config : IncentiveConfig) : Finset ℕ :=
  ((workload.obligations.filter fun obligation =>
    Sim.payerWillDefault obligation.pair.payer roles config).map (·.pair.payer)).toFinset

/-- `Plan::new`. -/
def new (strategy : IncentiveStrategy) (workload : PricedWorkload) (roles : List NodeRole)
    (config : IncentiveConfig) : Plan strategy roles config :=
  let payers := adversarialPayers workload roles config
  let plan : Plan strategy roles config :=
    { report :=
        { usefulBytes := workload.usefulBytes
          usefulValueSat := workload.usefulValueSat
          pricingDustBytes := workload.pricingDustBytes
          pricedObligations := workload.obligations.length
          adversarialPayerCount := payers.card
          adversarialPayerValueSat :=
            ((workload.obligations.filter fun obligation =>
              obligation.pair.payer ∈ payers).map (·.amountSat)).sum
          mintAcceptingNodes := mintAcceptingNodes roles.length config }
      stateEntries := List.replicate roles.length 0
      endpointMessages := List.replicate roles.length 0
      endpointBytes := List.replicate roles.length 0 }
  plan.recordPublicMintDiscovery

end Plan

/-! ## Settlement groups -/

/-- `Batch`: the service one pair owes for one window. -/
structure Batch where
  pair : Pair
  amountSat : ℕ
  dueMs : ℕ
  deriving DecidableEq, Repr

/-- When an obligation falls due: the end of its window. -/
def dueMs (intervalMs acceptedAtMs : ℕ) : ℕ :=
  satMul (satAdd (acceptedAtMs / intervalMs) 1) intervalMs

/-- One pass of the loop of `batches`. -/
def batchObligation (intervalMs : ℕ) (grouped : Finmap fun _ : ℕ ×ₗ Pair => ℕ)
    (obligation : Obligation) : Finmap fun _ : ℕ ×ₗ Pair => ℕ :=
  let key : ℕ ×ₗ Pair := toLex (dueMs intervalMs obligation.acceptedAtMs, obligation.pair)
  grouped.insert key (satAdd ((grouped.lookup key).getD 0) obligation.amountSat)

/-- `batches`. -/
def batches (obligations : List Obligation) (intervalMs : ℕ) : List Batch :=
  ((Enumeration.ascending _).visit
    (obligations.foldl (batchObligation intervalMs) ∅)).map fun entry =>
      ⟨(ofLex entry.1).2, entry.2, (ofLex entry.1).1⟩

/-- `ReciprocalTotals`, which `plan_peer_credit` keeps as an array of two. -/
structure ReciprocalTotals where
  lowToHighSat : ℕ := 0
  highToLowSat : ℕ := 0
  deriving DecidableEq, Repr

/-- The key of a settlement group: when it is due, and its two nodes in ascending order. -/
abbrev GroupKey := ℕ ×ₗ ℕ ×ₗ ℕ

/-- The group that a batch belongs to. -/
def Batch.groupKey (batch : Batch) : GroupKey :=
  toLex (batch.dueMs,
    toLex (min batch.pair.payer batch.pair.provider, max batch.pair.payer batch.pair.provider))

/-- A batch added to the totals of its group. -/
def ReciprocalTotals.add (totals : ReciprocalTotals) (batch : Batch) : ReciprocalTotals :=
  if batch.pair.payer = min batch.pair.payer batch.pair.provider then
    { totals with lowToHighSat := satAdd totals.lowToHighSat batch.amountSat }
  else { totals with highToLowSat := satAdd totals.highToLowSat batch.amountSat }

/-- One pass of the loop with which both strategies group their batches. -/
def groupBatch (reciprocal : Finmap fun _ : GroupKey => ReciprocalTotals) (batch : Batch) :
    Finmap fun _ : GroupKey => ReciprocalTotals :=
  reciprocal.insert batch.groupKey (((reciprocal.lookup batch.groupKey).getD {}).add batch)

/-- The service two nodes gave each other in one window. -/
structure Group where
  dueMs : ℕ
  low : ℕ
  high : ℕ
  totals : ReciprocalTotals
  deriving DecidableEq, Repr

/-- The groups of a workload, in the order in which both strategies settle them. -/
def settlementGroups (workload : PricedWorkload) (config : IncentiveConfig) : List Group :=
  ((Enumeration.ascending _).visit
    ((batches workload.obligations config.batchIntervalMs).foldl groupBatch ∅)).map fun entry =>
      { dueMs := (ofLex entry.1).1
        low := (ofLex (ofLex entry.1).2).1
        high := (ofLex (ofLex entry.1).2).2
        totals := entry.2 }

namespace Group

/-- The service that pays for itself inside the group. -/
def offset (group : Group) : ℕ := min group.totals.lowToHighSat group.totals.highToLowSat

/-- Who is left owing, and how much. -/
def net (group : Group) : Pair × ℕ :=
  if group.totals.highToLowSat ≤ group.totals.lowToHighSat then
    (⟨group.low, group.high⟩, group.totals.lowToHighSat - group.totals.highToLowSat)
  else (⟨group.high, group.low⟩, group.totals.highToLowSat - group.totals.lowToHighSat)

end Group

/-! ## The two strategies -/

section Strategies

variable {strategy : IncentiveStrategy} {roles : List NodeRole} {config : IncentiveConfig}

/-- A plan with the relationship credit outstanding under it. -/
structure Round (strategy : IncentiveStrategy) (roles : List NodeRole)
    (config : IncentiveConfig) where
  plan : Plan strategy roles config
  credit : Finmap fun _ : Pair => ℕ := ∅

namespace Round

/-- What `pair` owes on credit. -/
def balance (s : Round strategy roles config) (pair : Pair) : ℕ :=
  (s.credit.lookup pair).getD 0

/-- The plan of a strategy with one state entry for each batch and no credit yet. -/
def start (strategy : IncentiveStrategy) (workload : PricedWorkload) (roles : List NodeRole)
    (config : IncentiveConfig) : Round strategy roles config where
  plan := (batches workload.obligations config.batchIntervalMs).foldl
    (fun plan batch => plan.recordState batch.pair) (Plan.new strategy workload roles config)

/-- The setoff inside a group, with which both strategies begin a round. -/
def setOff (s : Round strategy roles config) (group : Group) : Round strategy roles config :=
  if 0 < group.offset then
    let lowPair : Pair := ⟨group.low, group.high⟩
    let highPair : Pair := ⟨group.high, group.low⟩
    let plan := (s.plan.earn lowPair group.offset).earn highPair group.offset
    let plan := (plan.markSettled lowPair group.offset).markSettled highPair group.offset
    { s with plan := plan.addReciprocal group.offset }
  else s

end Round

/-- The part of a round of `plan_peer_credit` after the setoff. -/
def extendCredit (s : Round strategy roles config) (pair : Pair) (amountSat dueMs : ℕ) :
    Round strategy roles config :=
  if amountSat = 0 then s
  else
    let admitted := min amountSat (config.offlineCreditCapSat - s.balance pair)
    let debtNow := satAdd (s.balance pair) admitted
    let credit := s.credit.insert pair debtNow
    let plan := (s.plan.recordProviderExposure debtNow false).earn pair admitted
    let plan := plan.deny (amountSat - admitted)
    if plan.payerWillDefault pair then { plan := plan.recordMessages pair 1, credit := credit }
    else if 0 < debtNow then
      let (paid, plan) := plan.trySettlement pair dueMs 2
      if paid then { plan := plan.settleWithRoute pair debtNow, credit := credit.erase pair }
      else { plan := plan, credit := credit }
    else { plan := plan, credit := credit }

/-- One pass of the settlement loop of `plan_peer_credit`. -/
def peerCreditRound (s : Round strategy roles config) (group : Group) :
    Round strategy roles config :=
  extendCredit (s.setOff group) group.net.1 group.net.2 group.dueMs

/-- The state of `plan_peer_credit` after its first groups. -/
def peerCreditRun (workload : PricedWorkload) (roles : List NodeRole)
    (config : IncentiveConfig) (groups : List Group) :
    Round .offlinePeerCredit roles config :=
  groups.foldl peerCreditRound (Round.start .offlinePeerCredit workload roles config)

/-- One debt left at the end of `plan_peer_credit`. -/
def leaveDebt (plan : Plan strategy roles config) (pair : Pair) (debt : ℕ) :
    Plan strategy roles config :=
  (plan.recordProviderExposure debt (plan.payerWillDefault pair)).recordUnpaid pair debt

/-- `plan_peer_credit`. -/
def planPeerCredit (workload : PricedWorkload) (roles : List NodeRole)
    (config : IncentiveConfig) : IncentiveReport :=
  let s := peerCreditRun workload roles config (settlementGroups workload config)
  (((Enumeration.ascending _).visit s.credit).foldl
    (fun plan entry => leaveDebt plan entry.1 entry.2) s.plan).finish

/-- The lines of `accept_peer_credit` about the credit itself. -/
def Plan.recordPeerCredit (plan : Plan strategy roles config) (admittedSat balance : ℕ) :
    Plan strategy roles config :=
  { plan with
    report.peerCreditAcceptedSat := satAdd plan.report.peerCreditAcceptedSat admittedSat
    report.maxPairPeerCreditSat := max plan.report.maxPairPeerCreditSat balance }

/-- `accept_peer_credit`. -/
def acceptPeerCredit (s : Round strategy roles config) (pair : Pair) (amountSat : ℕ) :
    Round strategy roles config :=
  let admittedSat := min amountSat (config.offlineCreditCapSat - s.balance pair)
  let balance := satAdd (s.balance pair) admittedSat
  let plan := s.plan.recordPeerCredit admittedSat balance
  let plan := (plan.recordProviderExposure balance false).earn pair admittedSat
  let plan := if plan.payerWillDefault pair then plan else plan.markSettled pair admittedSat
  { plan := plan.deny (amountSat - admittedSat), credit := s.credit.insert pair balance }

/-- The first half of `settle_net`: what `pair` owes pays off what it is owed in return. -/
def netReverse (s : Round strategy roles config) (pair : Pair) (amountSat : ℕ) :
    Round strategy roles config :=
  let reverseSat := s.balance pair.swap
  let reciprocalSat := min amountSat reverseSat
  let plan :=
    if 0 < reciprocalSat then
      let plan := (s.plan.earn pair reciprocalSat).markSettled pair reciprocalSat
      let plan :=
        if plan.payerWillDefault pair.swap then plan.markSettled pair.swap reciprocalSat
        else plan
      plan.addReciprocal reciprocalSat
    else s.plan
  { plan := plan
    credit :=
      if 0 < reverseSat - reciprocalSat then
        (s.credit.erase pair.swap).insert pair.swap (reverseSat - reciprocalSat)
      else s.credit.erase pair.swap }

/-- Whether a balance is large enough for an external payment. -/
def requiresCashu (config : IncentiveConfig) (combinedSat : ℕ) : Bool :=
  config.cashuMinSettlementSat ≤ combinedSat ∨ config.offlineCreditCapSat ≤ combinedSat

/-- What `settle_net` records when `pair` refuses the payment it owes. -/
def Plan.recordRefusal (plan : Plan strategy roles config) (pair : Pair) :
    Plan strategy roles config :=
  let plan := plan.recordMintDiscoveryPair pair
  let plan' : Plan strategy roles config :=
    { plan with
      report.settlementAttempts := satAdd plan.report.settlementAttempts 1 }
  plan'.recordMessages pair 1

/-- The second half of `settle_net`: the rest is paid if it must and can be, and goes on
credit otherwise. -/
def payOrAccept (s : Round strategy roles config) (pair : Pair) (amountSat dueMs : ℕ) :
    Round strategy roles config :=
  if amountSat = 0 then s
  else if requiresCashu config (satAdd (s.balance pair) amountSat) then
    if s.plan.payerWillDefault pair then
      acceptPeerCredit { s with plan := s.plan.recordRefusal pair } pair amountSat
    else
      let (paid, plan) := s.plan.trySettlement pair dueMs 5
      if paid then
        { plan := ((plan.recordRouteSettlement pair).earn pair amountSat).markSettled pair
            amountSat
          credit := s.credit.erase pair }
      else acceptPeerCredit { s with plan := plan } pair amountSat
  else acceptPeerCredit s pair amountSat

/-- `settle_net`. -/
def settleNet (s : Round strategy roles config) (pair : Pair) (amountSat dueMs : ℕ) :
    Round strategy roles config :=
  if amountSat = 0 then s
  else
    payOrAccept (netReverse s pair amountSat) pair (amountSat - min amountSat (s.balance pair.swap))
      dueMs

/-- One pass of the settlement loop of `plan_accepted_mint_batch`. -/
def acceptedBatchRound (s : Round strategy roles config) (group : Group) :
    Round strategy roles config :=
  settleNet (s.setOff group) group.net.1 group.net.2 group.dueMs

/-- The state of `plan_accepted_mint_batch` after its first groups. -/
def acceptedBatchRun (workload : PricedWorkload) (roles : List NodeRole)
    (config : IncentiveConfig) (groups : List Group) :
    Round .acceptedMintBatch roles config :=
  groups.foldl acceptedBatchRound (Round.start .acceptedMintBatch workload roles config)

/-- Credit counted as outstanding. -/
def Plan.recordOutstanding (plan : Plan strategy roles config) (amountSat : ℕ) :
    Plan strategy roles config :=
  { plan with
    report.peerCreditOutstandingSat := satAdd plan.report.peerCreditOutstandingSat amountSat }

/-- One credit left at the end of `plan_accepted_mint_batch`. -/
def leaveCredit (plan : Plan strategy roles config) (pair : Pair) (amountSat : ℕ) :
    Plan strategy roles config :=
  let plan' := plan.recordOutstanding amountSat
  (plan'.recordUnpaid pair amountSat).recordProviderExposure (plan'.unpaidAfter pair amountSat)
    (plan.payerWillDefault pair)

/-- `plan_accepted_mint_batch`. -/
def planAcceptedMintBatch (workload : PricedWorkload) (roles : List NodeRole)
    (config : IncentiveConfig) : IncentiveReport :=
  let s := acceptedBatchRun workload roles config (settlementGroups workload config)
  (((Enumeration.ascending _).visit s.credit).foldl
    (fun plan entry => leaveCredit plan entry.1 entry.2) s.plan).finish

end Strategies

end NostrPubsub.Sim
