import NostrPubsub.Sim.Pricing

/-!
# The figures of a plan

The six numbers of a report that value accounting is about, and what every operation of a
plan does to them. Messages, mint discovery, retries, routes and fake claims touch none of
them; `earn`, `deny`, `mark_settled` and `record_provider_exposure` touch one each.

The second half follows the value of a workload through its batches and settlement groups:
nothing is lost on the way, and every group is between two different nodes that really
served each other.
-/

namespace NostrPubsub.Sim

open Finmap (Enumeration)

/-- The figures that value accounting is about. -/
@[ext]
structure Figures where
  useful : ℕ
  earned : ℕ
  settled : ℕ
  denied : ℕ
  /-- The largest exposure of a provider. -/
  exposure : ℕ
  /-- The largest credit of a pair. -/
  peak : ℕ

namespace Figures

def earn (f : Figures) (n : ℕ) : Figures := { f with earned := satAdd f.earned n }

def settle (f : Figures) (n : ℕ) : Figures := { f with settled := satAdd f.settled n }

def deny (f : Figures) (n : ℕ) : Figures := { f with denied := satAdd f.denied n }

def expose (f : Figures) (n : ℕ) : Figures := { f with exposure := max f.exposure n }

def reach (f : Figures) (n : ℕ) : Figures := { f with peak := max f.peak n }

end Figures

def IncentiveReport.figures (report : IncentiveReport) : Figures where
  useful := report.usefulValueSat
  earned := report.honestEarnedSat
  settled := report.honestSettledByDeadlineSat
  denied := report.authorizationDeniedSat
  exposure := report.providerUnpaidExposureSat
  peak := report.maxPairPeerCreditSat

namespace Plan

variable {strategy : IncentiveStrategy} {roles : List NodeRole} {config : IncentiveConfig}
  (plan : Plan strategy roles config) (pair : Pair)

def figures : Figures := plan.report.figures

theorem figures_foldl {α : Type*}
    {f : Plan strategy roles config → α → Plan strategy roles config}
    (hf : ∀ plan a, (f plan a).figures = plan.figures) (l : List α)
    (plan : Plan strategy roles config) : (l.foldl f plan).figures = plan.figures := by
  induction l generalizing plan with
  | nil => rfl
  | cons a l ih => exact (ih (f plan a)).trans (hf plan a)

/-! ## Operations that keep the figures -/

@[simp]
theorem figures_recordState : (plan.recordState pair).figures = plan.figures := rfl

@[simp]
theorem figures_recordEndpointTraffic (messages bytes : ℕ) :
    (plan.recordEndpointTraffic pair messages bytes).figures = plan.figures := rfl

@[simp]
theorem figures_recordMessages (messages : ℕ) :
    (plan.recordMessages pair messages).figures = plan.figures :=
  plan.figures_recordEndpointTraffic pair messages _

@[simp]
theorem figures_recordAttempt (retry : ℕ) :
    (plan.recordAttempt pair retry).figures = plan.figures := by
  rw [recordAttempt, figures_recordMessages]
  rfl

@[simp]
theorem figures_addReciprocal (amountSat : ℕ) :
    (plan.addReciprocal amountSat).figures = plan.figures := rfl

@[simp]
theorem figures_recordUnpaid (amountSat : ℕ) :
    (plan.recordUnpaid pair amountSat).figures = plan.figures := rfl

theorem figures_recordRoute (route : MintRoute) :
    (plan.recordRoute route).figures = plan.figures := by
  cases route with
  | same => rfl
  | cross => rfl

@[simp]
theorem figures_recordRouteSettlement :
    (plan.recordRouteSettlement pair).figures = plan.figures :=
  plan.figures_recordRoute _

@[simp]
theorem figures_recordMintDiscoveryPair :
    (plan.recordMintDiscoveryPair pair).figures = plan.figures := by
  unfold recordMintDiscoveryPair
  split <;> rfl

theorem figures_attempts (dueMs phase sequence : ℕ) (retries : List ℕ) :
    (attempts pair dueMs phase sequence retries plan).2.figures = plan.figures := by
  induction retries generalizing plan with
  | nil => rfl
  | cons retry rest ih =>
    rw [attempts]
    split
    · rfl
    · split
      · rw [ih, figures_recordAttempt]
      · exact plan.figures_recordAttempt pair retry

@[simp]
theorem figures_trySettlement (dueMs phase : ℕ) :
    (plan.trySettlement pair dueMs phase).2.figures = plan.figures := by
  rw [trySettlement, figures_attempts]
  exact plan.figures_recordMintDiscoveryPair pair

@[simp]
theorem figures_recordRefusal : (plan.recordRefusal pair).figures = plan.figures := by
  rw [recordRefusal, figures_recordMessages]
  exact plan.figures_recordMintDiscoveryPair pair

@[simp]
theorem figures_recordOutstanding (amountSat : ℕ) :
    (plan.recordOutstanding amountSat).figures = plan.figures := rfl

@[simp]
theorem figures_recordPublicMintDiscovery :
    plan.recordPublicMintDiscovery.figures = plan.figures := by
  unfold recordPublicMintDiscovery
  split
  · rfl
  · refine figures_foldl (fun plan provider => ?_) _ plan
    refine figures_foldl (fun plan payer => ?_) _ plan
    split
    · exact plan.figures_recordMintDiscoveryPair _
    · rfl

@[simp]
theorem figures_addFakeClaimPressure : plan.addFakeClaimPressure.figures = plan.figures := by
  unfold addFakeClaimPressure
  split
  · rfl
  · refine figures_foldl (fun plan attacker => ?_) _ plan
    split
    · rfl
    · exact figures_recordMessages _ _ _

/-- Closing a plan adds up nothing anew. -/
@[simp]
theorem figures_finish : plan.finish.figures = plan.figures :=
  plan.figures_addFakeClaimPressure

/-- A new plan has booked nothing. -/
theorem figures_new (workload : PricedWorkload) :
    (Plan.new strategy workload roles config).figures
      = ⟨workload.usefulValueSat, 0, 0, 0, 0, 0⟩ :=
  figures_recordPublicMintDiscovery _

/-! ## Operations that book -/

theorem figures_earn (h : plan.providerIsHonest pair) (amountSat : ℕ) :
    (plan.earn pair amountSat).figures = plan.figures.earn amountSat := by
  rw [earn, if_pos h]
  rfl

theorem figures_markSettled (h : plan.providerIsHonest pair) (amountSat : ℕ) :
    (plan.markSettled pair amountSat).figures = plan.figures.settle amountSat := by
  rw [markSettled, if_pos h]
  rfl

@[simp]
theorem figures_deny (amountSat : ℕ) :
    (plan.deny amountSat).figures = plan.figures.deny amountSat := rfl

@[simp]
theorem figures_recordProviderExposure (amountSat : ℕ) (lost : Bool) :
    (plan.recordProviderExposure amountSat lost).figures = plan.figures.expose amountSat := by
  cases lost <;> rfl

@[simp]
theorem figures_recordPeerCredit (admittedSat balance : ℕ) :
    (plan.recordPeerCredit admittedSat balance).figures = plan.figures.reach balance := rfl

end Plan

/-! ## Batches and settlement groups -/

/-- A pair that may owe: two different nodes, of which the provider is no attacker. -/
def Legit (roles : List NodeRole) (pair : Pair) : Prop :=
  pair.payer ≠ pair.provider ∧ roles[pair.provider]? ≠ some .attacker

theorem Legit.honest {strategy : IncentiveStrategy} {roles : List NodeRole}
    {config : IncentiveConfig} {pair : Pair} (h : Legit roles pair)
    (plan : Plan strategy roles config) : plan.providerIsHonest pair :=
  decide_eq_true h.2

variable {p : Pair → Prop}

/-- The batches of obligations between pairs with a property are between such pairs, and are
worth as much. -/
theorem batches_spec {obligations : List Obligation} (intervalMs : ℕ)
    (hfits : totalSat obligations ≤ u64Max) (hp : ∀ obligation ∈ obligations, p obligation.pair) :
    ((batches obligations intervalMs).map (·.amountSat)).sum = totalSat obligations ∧
    ∀ batch ∈ batches obligations intervalMs, p batch.pair := by
  have hgrouped :
      ((obligations.foldl (batchObligation intervalMs) ∅).total fun _ n => n)
        = totalSat obligations ∧
      ∀ key n, (obligations.foldl (batchObligation intervalMs) ∅).lookup key = some n →
        p (ofLex key).2 := by
    induction obligations using List.reverseRecOn with
    | nil => exact ⟨rfl, fun key n h => nomatch h⟩
    | append_singleton obligations obligation ih =>
      have htotal : totalSat (obligations ++ [obligation])
          = totalSat obligations + obligation.amountSat := by simp [totalSat]
      rw [htotal] at hfits ⊢
      obtain ⟨hsum, hpairs⟩ := ih (by omega) fun o ho => hp o (List.mem_append_left _ ho)
      rw [List.foldl_append, List.foldl_cons, List.foldl_nil]
      generalize obligations.foldl (batchObligation intervalMs) ∅ = grouped at hsum hpairs ⊢
      unfold batchObligation
      dsimp only
      generalize hkey : toLex (dueMs intervalMs obligation.acceptedAtMs, obligation.pair) = key
      -- Adding to a group moves the total by what the group gained, and no group saturates.
      have hcarry := Finmap.total_insert_getD (f := fun (_ : ℕ ×ₗ Pair) (n : ℕ) => n) (d := 0)
        (a := key) rfl grouped (satAdd ((grouped.lookup key).getD 0) obligation.amountSat)
      have hold : (grouped.lookup key).getD 0 ≤ totalSat obligations := by
        rw [← hsum]
        cases hlookup : grouped.lookup key with
        | none => exact Nat.zero_le _
        | some n =>
          rw [Finmap.total_eq_add_erase _ hlookup, Option.getD_some]
          omega
      have hsat : satAdd ((grouped.lookup key).getD 0) obligation.amountSat
          = (grouped.lookup key).getD 0 + obligation.amountSat := satAdd_eq (by omega)
      refine ⟨by omega, fun other n h => ?_⟩
      rcases Finmap.lookup_insert_eq_some.mp h with ⟨rfl, _⟩ | ⟨_, h⟩
      · rw [← hkey]
        exact hp obligation (List.mem_append_right _ List.mem_cons_self)
      · exact hpairs other n h
  constructor
  · rw [← hgrouped.1, batches, List.map_map]
    exact (Enumeration.ascending _).sum_visit (fun _ n => n) _
  · intro batch hbatch
    obtain ⟨⟨key, n⟩, hentry, rfl⟩ := List.mem_map.mp hbatch
    exact hgrouped.2 key n ((Enumeration.ascending _).mem_visit.mp hentry)

namespace ReciprocalTotals

/-- The value of both directions. -/
def size (totals : ReciprocalTotals) : ℕ := totals.lowToHighSat + totals.highToLowSat

end ReciprocalTotals

/-- Whoever gave service in a group is one of its two nodes, and served the other. -/
structure Served (p : Pair → Prop) (low high : ℕ) (totals : ReciprocalTotals) : Prop where
  lowOwes : 0 < totals.lowToHighSat → p ⟨low, high⟩
  highOwes : 0 < totals.highToLowSat → p ⟨high, low⟩

namespace Group

/-- The value of both directions. -/
def size (group : Group) : ℕ := group.totals.size

theorem offset_add_net (group : Group) : 2 * group.offset + group.net.2 = group.size := by
  unfold offset net size ReciprocalTotals.size
  split <;> omega

end Group

/-- Whoever is left owing in a group was served in it. -/
theorem net_legit {roles : List NodeRole} {group : Group}
    (h : Served (Legit roles) group.low group.high group.totals) (hn : group.net.2 ≠ 0) :
    Legit roles group.net.1 := by
  unfold Group.net at hn ⊢
  split at hn
  next hle =>
    rw [if_pos hle]
    exact h.lowOwes (by dsimp only at hn; omega)
  next hgt =>
    rw [if_neg hgt]
    exact h.highOwes (by dsimp only at hn; omega)

/-- The settlement groups of a workload are worth as much as its obligations, and are between
the same pairs. -/
theorem settlementGroups_spec {workload : PricedWorkload} (config : IncentiveConfig)
    (hfits : totalSat workload.obligations ≤ u64Max)
    (hp : ∀ obligation ∈ workload.obligations, p obligation.pair) :
    ((settlementGroups workload config).map Group.size).sum = totalSat workload.obligations ∧
    ∀ group ∈ settlementGroups workload config, Served p group.low group.high group.totals := by
  obtain ⟨hsum, hpairs⟩ := batches_spec config.batchIntervalMs hfits hp
  generalize hbatches : batches workload.obligations config.batchIntervalMs = batches at hsum hpairs
  rw [← hsum] at hfits ⊢
  have hgrouped :
      ((batches.foldl groupBatch ∅).total fun _ totals => totals.size)
        = (batches.map (·.amountSat)).sum ∧
      ∀ key totals, (batches.foldl groupBatch ∅).lookup key = some totals →
        Served p (ofLex (ofLex key).2).1 (ofLex (ofLex key).2).2 totals := by
    clear hbatches hsum
    induction batches using List.reverseRecOn with
    | nil => exact ⟨rfl, fun key totals h => nomatch h⟩
    | append_singleton batches batch ih =>
      simp only [List.map_append, List.sum_append, List.map_cons, List.map_nil,
        List.sum_singleton] at hfits ⊢
      obtain ⟨hsum, hserved⟩ := ih (by omega) fun b hb => hpairs b (List.mem_append_left _ hb)
      have hbatch := hpairs batch (List.mem_append_right _ List.mem_cons_self)
      rw [List.foldl_append, List.foldl_cons, List.foldl_nil]
      generalize batches.foldl groupBatch ∅ = grouped at hsum hserved ⊢
      unfold groupBatch
      generalize hkey : batch.groupKey = key
      have hcarry := Finmap.total_insert_getD
        (f := fun (_ : GroupKey) (totals : ReciprocalTotals) => totals.size) (d := {})
        (a := key) rfl grouped (((grouped.lookup key).getD {}).add batch)
      have hold : ((grouped.lookup key).getD {}).size ≤ (batches.map (·.amountSat)).sum := by
        rw [← hsum]
        cases hlookup : grouped.lookup key with
        | none => exact Nat.zero_le _
        | some totals =>
          rw [Finmap.total_eq_add_erase _ hlookup, Option.getD_some]
          omega
      have hbefore : Served p (ofLex (ofLex key).2).1 (ofLex (ofLex key).2).2
          ((grouped.lookup key).getD {}) := by
        cases hlookup : grouped.lookup key with
        | none => exact ⟨fun h => absurd h (Nat.lt_irrefl 0), fun h => absurd h (Nat.lt_irrefl 0)⟩
        | some totals => exact hserved key totals hlookup
      generalize (grouped.lookup key).getD {} = before at hcarry hold hbefore ⊢
      -- the batch goes to the direction in which its payer owes
      have hadd : (before.add batch).size = before.size + batch.amountSat ∧
          Served p (ofLex (ofLex key).2).1 (ofLex (ofLex key).2).2 (before.add batch) := by
        subst hkey
        simp only [ReciprocalTotals.size] at hold
        unfold ReciprocalTotals.add
        by_cases hlow : batch.pair.payer = min batch.pair.payer batch.pair.provider
        · rw [if_pos hlow]
          have hpair : (⟨(ofLex (ofLex batch.groupKey).2).1,
              (ofLex (ofLex batch.groupKey).2).2⟩ : Pair) = batch.pair := by
            show (⟨min batch.pair.payer batch.pair.provider,
              max batch.pair.payer batch.pair.provider⟩ : Pair) = batch.pair
            rw [← hlow, max_eq_right (hlow ▸ min_le_right _ _)]
          refine ⟨?_, ⟨fun _ => hpair ▸ hbatch, hbefore.highOwes⟩⟩
          show satAdd before.lowToHighSat batch.amountSat + before.highToLowSat
            = before.lowToHighSat + before.highToLowSat + batch.amountSat
          rw [satAdd_eq (by omega)]
          omega
        · rw [if_neg hlow]
          have hpair : (⟨(ofLex (ofLex batch.groupKey).2).2,
              (ofLex (ofLex batch.groupKey).2).1⟩ : Pair) = batch.pair := by
            show (⟨max batch.pair.payer batch.pair.provider,
              min batch.pair.payer batch.pair.provider⟩ : Pair) = batch.pair
            have hle : batch.pair.provider ≤ batch.pair.payer := by omega
            rw [max_eq_left hle, min_eq_right hle]
          refine ⟨?_, ⟨hbefore.lowOwes, fun _ => hpair ▸ hbatch⟩⟩
          show before.lowToHighSat + satAdd before.highToLowSat batch.amountSat
            = before.lowToHighSat + before.highToLowSat + batch.amountSat
          rw [satAdd_eq (by omega)]
          omega
      refine ⟨by have := hadd.1; omega, fun other totals h => ?_⟩
      rcases Finmap.lookup_insert_eq_some.mp h with ⟨rfl, rfl⟩ | ⟨_, h⟩
      · exact hadd.2
      · exact hserved other totals h
  rw [settlementGroups, hbatches]
  constructor
  · rw [← hgrouped.1, List.map_map]
    exact (Enumeration.ascending _).sum_visit (fun _ (totals : ReciprocalTotals) => totals.size) _
  · intro group hgroup
    obtain ⟨⟨key, totals⟩, hentry, rfl⟩ := List.mem_map.mp hgroup
    exact hgrouped.2 key totals ((Enumeration.ascending _).mem_visit.mp hentry)

end NostrPubsub.Sim
