import NostrPubsub.Sim.Figures
import NostrPubsub.ToMathlib.Clearing

/-!
# Conservation of value

The two strategies that keep relationship credit, as clearing houses (`Clearing.Books`): a
round of either is a setoff inside the group, followed by payments, extensions of credit,
repayments and refusals. Under `OfflinePeerCredit` credit counts as settled only when it is
paid; under `AcceptedMintBatch` only the credit of payers that will default does not.

Since every booking keeps the books balanced, no run of groups loses or doubles a satoshi:
what was earned and what was denied add up to the value of the groups settled so far, and
no more is settled than was earned.

## Main results

* `peerCreditRound_sound`, `acceptedBatchRound_sound`: one round keeps the books balanced and
  every credit below the cap;
* `acceptedBatchRound_netted`: one round of `AcceptedMintBatch` leaves no two nodes with
  credit against each other;
* `value_conserved`: the same for whole plans, from the delivery records on.
-/

namespace NostrPubsub.Sim

open Clearing
open Finmap (Enumeration)

variable {strategy : IncentiveStrategy} {roles : List NodeRole} {config : IncentiveConfig}

/-! ## The books of a round -/

/-- The books that a round keeps. -/
noncomputable def Round.books (s : Round strategy roles config) : Books Pair where
  earned := s.plan.figures.earned
  settled := s.plan.figures.settled
  denied := s.plan.figures.denied
  owed := s.credit.toFinsupp

theorem Round.owed_books (s : Round strategy roles config) (pair : Pair) :
    s.books.owed pair = s.balance pair := rfl

theorem Round.books_eq {s : Round strategy roles config} {figures : Figures} {owed : Pair →₀ ℕ}
    (hfigures : s.plan.figures = figures) (hcredit : s.credit.toFinsupp = owed) :
    s.books = ⟨figures.earned, figures.settled, figures.denied, owed⟩ := by
  subst hfigures hcredit
  rfl

/-- What the cap leaves room for, of `n` more on the credit of `pair`. -/
def Round.admitted (s : Round strategy roles config) (pair : Pair) (n : ℕ) : ℕ :=
  min n (config.offlineCreditCapSat - s.balance pair)

/-- Credit that `OfflinePeerCredit` has not settled: all of it. -/
def AnyPair (_pair : Pair) : Prop := True

theorem anyPair (pair : Pair) : AnyPair pair := trivial

instance : DecidablePred AnyPair := fun _ => instDecidableTrue

/-- Credit that `AcceptedMintBatch` has not settled: that of payers that will default. -/
def Defaulting (roles : List NodeRole) (config : IncentiveConfig) (pair : Pair) : Prop :=
  payerWillDefault pair.payer roles config = true

instance : DecidablePred (Defaulting roles config) := fun _ => instDecidableEqBool _ _

/-- What holds after groups worth `traded` have been settled. -/
structure Round.Sound (unsecured : Pair → Prop) [DecidablePred unsecured] (useful traded : ℕ)
    (s : Round strategy roles config) : Prop where
  balanced : s.books.Balanced unsecured traded
  capped : s.books.Capped config.offlineCreditCapSat
  within : s.books.Within (Legit roles)
  useful_eq : s.plan.figures.useful = useful
  exposure_le : s.plan.figures.exposure ≤ config.offlineCreditCapSat
  peak_le : s.plan.figures.peak ≤ config.offlineCreditCapSat

namespace Round.Sound

variable {unsecured : Pair → Prop} [DecidablePred unsecured] {useful traded : ℕ}
  {s s' : Round strategy roles config} {pair : Pair} {n : ℕ}

/-- A round that books nothing and keeps the credit. -/
theorem of_eq (h : s.Sound unsecured useful traded) (hfigures : s'.plan.figures = s.plan.figures)
    (hcredit : s'.credit = s.credit) : s'.Sound unsecured useful traded := by
  have hbooks : s'.books = s.books := by
    rw [Round.books, Round.books, hfigures, hcredit]
  exact ⟨hbooks ▸ h.balanced, hbooks ▸ h.capped, hbooks ▸ h.within, hfigures ▸ h.useful_eq,
    hfigures ▸ h.exposure_le, hfigures ▸ h.peak_le⟩

/-- `n` is paid at once. -/
theorem pay (h : s.Sound unsecured useful traded) (hfits : traded + n ≤ u64Max)
    (hfigures : s'.plan.figures = (s.plan.figures.earn n).settle n)
    (hcredit : s'.credit = s.credit) : s'.Sound unsecured useful (traded + n) := by
  have hearned := h.balanced.earned_le
  have hsettled := h.balanced.settled_le
  have hbooks : s'.books = s.books.setOff n := by
    refine (Round.books_eq hfigures (congrArg _ hcredit)).trans (Books.ext ?_ ?_ rfl rfl)
    · exact satAdd_eq (show s.books.earned + n ≤ u64Max by omega)
    · exact satAdd_eq (show s.books.settled + n ≤ u64Max by omega)
  refine ⟨?_, hbooks ▸ h.capped, hbooks ▸ h.within, ?_, ?_, ?_⟩
  · rw [hbooks]
    exact h.balanced.setOff n
  · rw [hfigures]
    exact h.useful_eq
  · rw [hfigures]
    exact h.exposure_le
  · rw [hfigures]
    exact h.peak_le

/-- `pair` pays off `n` of its credit. -/
theorem repay (h : s.Sound unsecured useful traded) (hfits : traded ≤ u64Max)
    (hn : n ≤ s.balance pair)
    (hfigures : s'.plan.figures =
      if unsecured pair then s.plan.figures.settle n else s.plan.figures)
    (hcredit : s'.credit.toFinsupp = s.credit.toFinsupp.update pair (s.balance pair - n)) :
    s'.Sound unsecured useful traded := by
  have hbalanced := h.balanced.clear (k := pair) (n := n) hn
  have hsettled := hbalanced.settled_le.trans hbalanced.earned_le
  have hbooks : s'.books = s.books.clear unsecured pair n := by
    by_cases hpair : unsecured pair
    · rw [if_pos hpair] at hfigures
      rw [Books.clear, if_pos hpair] at hsettled ⊢
      refine (Round.books_eq hfigures hcredit).trans (Books.ext rfl ?_ rfl rfl)
      exact satAdd_eq (hsettled.trans hfits)
    · rw [if_neg hpair] at hfigures
      rw [Books.clear, if_neg hpair]
      exact Round.books_eq hfigures hcredit
  refine ⟨hbooks ▸ hbalanced, ?_, ?_, ?_, ?_, ?_⟩
  · rw [hbooks]
    exact h.capped.clear
  · rw [hbooks]
    exact h.within.clear
  · rw [hfigures]
    split
    · exact h.useful_eq
    · exact h.useful_eq
  · rw [hfigures]
    split
    · exact h.exposure_le
    · exact h.exposure_le
  · rw [hfigures]
    split
    · exact h.peak_le
    · exact h.peak_le

theorem balance_add_admitted (h : s.Sound unsecured useful traded)
    (hfits : traded + n ≤ u64Max) :
    satAdd (s.balance pair) (s.admitted pair n) = s.balance pair + s.admitted pair n := by
  have hfunded := h.balanced.funded pair
  rw [s.owed_books] at hfunded
  have hearned := h.balanced.earned_le
  have hle : s.admitted pair n ≤ n := min_le_left _ _
  exact satAdd_eq (by omega)

/-- Of `n`, what fits under the cap goes on the credit of `pair`; the rest is denied. -/
theorem grant (h : s.Sound unsecured useful traded) (hfits : traded + n ≤ u64Max)
    (hlegit : Legit roles pair) {peak : ℕ}
    (hfigures : s'.plan.figures =
      { useful := s.plan.figures.useful
        earned := satAdd s.plan.figures.earned (s.admitted pair n)
        settled :=
          if unsecured pair then s.plan.figures.settled
          else satAdd s.plan.figures.settled (s.admitted pair n)
        denied := satAdd s.plan.figures.denied (n - s.admitted pair n)
        exposure := max s.plan.figures.exposure (s.balance pair + s.admitted pair n)
        peak := peak })
    (hpeak : peak ≤ max s.plan.figures.peak (s.balance pair + s.admitted pair n))
    (hcredit : s'.credit = s.credit.insert pair (s.balance pair + s.admitted pair n)) :
    s'.Sound unsecured useful (traded + n) := by
  have hle : s.admitted pair n ≤ n := min_le_left _ _
  -- What is granted fits under the cap, and no sum saturates: all of them are at most what was
  -- traded.
  have hcap : s.balance pair + s.admitted pair n ≤ config.offlineCreditCapSat := by
    have := h.capped pair
    rw [s.owed_books] at this
    unfold Round.admitted
    omega
  have hvalue := h.balanced.value
  have hsettled := h.balanced.settled_le
  have hbooks : s'.books
      = (s.books.extend unsecured pair (s.admitted pair n)).deny (n - s.admitted pair n) := by
    refine (Round.books_eq hfigures ?_).trans (Books.ext ?_ ?_ ?_ rfl)
    · rw [hcredit, Finmap.toFinsupp_insert]
      rfl
    · exact satAdd_eq (show s.books.earned + _ ≤ u64Max by omega)
    · show (if unsecured pair then s.books.settled
          else satAdd s.books.settled (s.admitted pair n))
        = if unsecured pair then s.books.settled else s.books.settled + s.admitted pair n
      rw [satAdd_eq (by omega)]
    · exact satAdd_eq (show s.books.denied + _ ≤ u64Max by omega)
  have hsplit : traded + s.admitted pair n + (n - s.admitted pair n) = traded + n := by omega
  refine ⟨?_, ?_, ?_, ?_, ?_, ?_⟩
  · rw [hbooks, ← hsplit]
    exact (h.balanced.extend pair _).deny _
  · rw [hbooks]
    show (s.books.extend unsecured pair (s.admitted pair n)).Capped _
    exact h.capped.extend hcap
  · rw [hbooks]
    show (s.books.extend unsecured pair (s.admitted pair n)).Within _
    exact h.within.extend fun _ => hlegit
  · rw [hfigures]
    exact h.useful_eq
  · rw [hfigures]
    exact max_le h.exposure_le hcap
  · rw [hfigures]
    exact hpeak.trans (max_le h.peak_le hcap)

end Round.Sound

/-! ## The setoff inside a group -/

section Steps

variable {unsecured : Pair → Prop} [DecidablePred unsecured] {useful traded : ℕ}
  {s : Round strategy roles config} {pair : Pair} {n : ℕ}

/-- Both nodes earn the offset, and both are paid. -/
theorem setOff_sound (h : s.Sound unsecured useful traded) (group : Group)
    (hserved : Served (Legit roles) group.low group.high group.totals)
    (hfits : traded + 2 * group.offset ≤ u64Max) :
    (s.setOff group).Sound unsecured useful (traded + 2 * group.offset) := by
  unfold Round.setOff
  by_cases hoffset : 0 < group.offset
  · have hlow : Legit roles ⟨group.low, group.high⟩ :=
      hserved.lowOwes (hoffset.trans_le (min_le_left _ _))
    have hhigh : Legit roles ⟨group.high, group.low⟩ :=
      hserved.highOwes (hoffset.trans_le (min_le_right _ _))
    rw [if_pos hoffset]
    refine h.pay hfits ?_ rfl
    dsimp only
    rw [Plan.figures_addReciprocal, Plan.figures_markSettled _ _ (hhigh.honest _),
      Plan.figures_markSettled _ _ (hlow.honest _), Plan.figures_earn _ _ (hhigh.honest _),
      Plan.figures_earn _ _ (hlow.honest _)]
    -- the offset is added twice, which is to add its double
    have hdouble : ∀ m ≤ traded,
        satAdd (satAdd m group.offset) group.offset = satAdd m (2 * group.offset) := by
      intro m hm
      rw [satAdd_eq (b := 2 * group.offset) (by omega), satAdd_eq (a := m) (by omega),
        satAdd_eq (by omega)]
      omega
    have hearned := h.balanced.earned_le
    refine Figures.ext rfl ?_ ?_ rfl rfl rfl
    · exact hdouble _ hearned
    · exact hdouble _ (h.balanced.settled_le.trans hearned)
  · rw [if_neg hoffset]
    have hzero : group.offset = 0 := by omega
    rw [hzero]
    exact h

/-! ## `OfflinePeerCredit` -/

/-- The service of a group goes on credit up to the cap, and the credit may be paid off
right away. -/
theorem extendCredit_sound (h : s.Sound AnyPair useful traded)
    (hlegit : n ≠ 0 → Legit roles pair) (hfits : traded + n ≤ u64Max) (dueMs : ℕ) :
    (extendCredit s pair n dueMs).Sound AnyPair useful (traded + n) := by
  unfold extendCredit
  by_cases hn : n = 0
  · simp only [if_pos hn]
    exact hn ▸ h
  simp only [if_neg hn]
  have hpair := hlegit hn
  rw [← Round.admitted, h.balance_add_admitted hfits]
  have hfigures := Plan.figures_earn (s.plan.recordProviderExposure
    (s.balance pair + s.admitted pair n) false) pair (hpair.honest _) (s.admitted pair n)
  rw [Plan.figures_recordProviderExposure] at hfigures
  -- whatever else the plan records, the credit is booked
  have hbooked : ∀ plan : Plan strategy roles config,
      plan.figures = (((s.plan.recordProviderExposure (s.balance pair + s.admitted pair n)
        false).earn pair (s.admitted pair n)).deny (n - s.admitted pair n)).figures →
      (Round.mk plan (s.credit.insert pair (s.balance pair + s.admitted pair n))).Sound AnyPair
        useful (traded + n) := by
    intro plan hplan
    refine h.grant hfits hpair (hplan.trans ?_) (le_max_left _ _) rfl
    rw [Plan.figures_deny, hfigures, if_pos (anyPair pair)]
    rfl
  generalize ((s.plan.recordProviderExposure (s.balance pair + s.admitted pair n)
    false).earn pair (s.admitted pair n)).deny (n - s.admitted pair n) = plan at hbooked ⊢
  split
  · exact hbooked _ (plan.figures_recordMessages _ _)
  split
  · have htried := plan.figures_trySettlement pair dueMs 2
    generalize plan.trySettlement pair dueMs 2 = attempt at htried ⊢
    obtain ⟨paid, tried⟩ := attempt
    dsimp only at htried ⊢
    split
    · -- the payment covers the whole credit of the pair
      have hbalance : (Round.mk tried (s.credit.insert pair
          (s.balance pair + s.admitted pair n))).balance pair
            = s.balance pair + s.admitted pair n := by
        rw [Round.balance, Finmap.lookup_insert, Option.getD_some]
      refine (hbooked tried htried).repay hfits hbalance.ge ?_ ?_
      · rw [Plan.settleWithRoute, Plan.figures_markSettled _ _ (hpair.honest _),
          Plan.figures_recordRouteSettlement, if_pos (anyPair pair)]
      · rw [Finmap.toFinsupp_erase, hbalance, Nat.sub_self]
    · exact hbooked tried htried
  · exact hbooked plan rfl

/-- One round of `plan_peer_credit`. -/
theorem peerCreditRound_sound (h : s.Sound AnyPair useful traded) (group : Group)
    (hserved : Served (Legit roles) group.low group.high group.totals)
    (hfits : traded + group.size ≤ u64Max) :
    (peerCreditRound s group).Sound AnyPair useful (traded + group.size) := by
  have hsize := group.offset_add_net
  rw [← hsize, ← Nat.add_assoc] at hfits ⊢
  exact extendCredit_sound (setOff_sound h group hserved (by omega)) (net_legit hserved) hfits _

/-! ## `AcceptedMintBatch` -/

/-- What is not paid goes on credit, up to the cap. -/
theorem acceptPeerCredit_sound (h : s.Sound (Defaulting roles config) useful traded)
    (hpair : Legit roles pair) (hfits : traded + n ≤ u64Max) :
    (acceptPeerCredit s pair n).Sound (Defaulting roles config) useful (traded + n) := by
  unfold acceptPeerCredit
  dsimp only
  rw [← Round.admitted, h.balance_add_admitted hfits]
  refine h.grant hfits hpair ?_ le_rfl rfl
  dsimp only
  rw [Plan.figures_deny]
  split
  next hdefault =>
    rw [Plan.figures_earn _ _ (hpair.honest _), Plan.figures_recordProviderExposure,
      Plan.figures_recordPeerCredit, if_pos (show Defaulting roles config pair from hdefault)]
    rfl
  next hpays =>
    rw [Plan.figures_markSettled _ _ (hpair.honest _), Plan.figures_earn _ _ (hpair.honest _),
      Plan.figures_recordProviderExposure, Plan.figures_recordPeerCredit,
      if_neg (show ¬ Defaulting roles config pair from hpays)]
    rfl

theorem balance_acceptPeerCredit {other : Pair} (h : other ≠ pair) :
    (acceptPeerCredit s pair n).balance other = s.balance other := by
  unfold acceptPeerCredit Round.balance
  dsimp only
  rw [Finmap.lookup_insert_of_ne _ h]

theorem toFinsupp_netReverse (s : Round strategy roles config) (pair : Pair) (n : ℕ) :
    (netReverse s pair n).credit.toFinsupp = s.credit.toFinsupp.update pair.swap
      (s.balance pair.swap - min n (s.balance pair.swap)) := by
  unfold netReverse
  dsimp only
  split
  · rw [Finmap.insert_erase, Finmap.toFinsupp_insert]
  next hrest =>
    rw [Finmap.toFinsupp_erase]
    congr 1
    omega

/-- What `pair` owes goes first against what it is owed. -/
theorem netReverse_sound (h : s.Sound (Defaulting roles config) useful traded)
    (hpair : Legit roles pair) (hfits : traded + min n (s.balance pair.swap) ≤ u64Max) :
    (netReverse s pair n).Sound (Defaulting roles config) useful
      (traded + min n (s.balance pair.swap)) := by
  have hcredit := toFinsupp_netReverse s pair n
  generalize hset : min n (s.balance pair.swap) = set at hfits hcredit ⊢
  have hset' : set ≤ s.balance pair.swap := hset ▸ min_le_right _ _
  -- `pair` is paid, and its counterpart pays off as much of its credit
  let middle : Round strategy roles config :=
    { s with plan := (s.plan.earn pair set).markSettled pair set }
  have hmiddle : middle.Sound (Defaulting roles config) useful (traded + set) := by
    refine h.pay hfits ?_ rfl
    rw [Plan.figures_markSettled _ _ (hpair.honest _), Plan.figures_earn _ _ (hpair.honest _)]
  refine hmiddle.repay hfits (show set ≤ middle.balance pair.swap from hset') ?_ hcredit
  unfold netReverse
  dsimp only
  rw [hset]
  by_cases hpos : 0 < set
  · have hswap : Legit roles pair.swap := by
      refine h.within pair.swap ?_
      rw [s.owed_books]
      omega
    rw [if_pos hpos, Plan.figures_addReciprocal]
    by_cases hdefault : Defaulting roles config pair.swap
    · rw [if_pos hdefault, if_pos (show Plan.payerWillDefault _ pair.swap from hdefault),
        Plan.figures_markSettled _ _ (hswap.honest _)]
    · rw [if_neg hdefault, if_neg (show ¬ Plan.payerWillDefault _ pair.swap from hdefault)]
  · obtain rfl : set = 0 := by omega
    have hzero : ∀ m ≤ u64Max, satAdd m 0 = m := fun m hm => satAdd_eq hm
    have hearned := h.balanced.earned_le
    have hsettled := h.balanced.settled_le
    have hsame : middle.plan.figures = s.plan.figures := by
      rw [Plan.figures_markSettled _ _ (hpair.honest _), Plan.figures_earn _ _ (hpair.honest _)]
      refine Figures.ext rfl ?_ ?_ rfl rfl rfl
      · exact hzero _ (show s.books.earned ≤ u64Max by omega)
      · exact hzero _ (show s.books.settled ≤ u64Max by omega)
    rw [if_neg hpos, hsame]
    split
    · refine Figures.ext rfl rfl ?_ rfl rfl rfl
      exact (hzero _ (show s.books.settled ≤ u64Max by omega)).symm
    · rfl

/-- What is left after netting is paid, if it must and can be, or goes on credit. -/
theorem payOrAccept_sound (h : s.Sound (Defaulting roles config) useful traded)
    (hpair : Legit roles pair) (hfits : traded + n ≤ u64Max) (dueMs : ℕ) :
    (payOrAccept s pair n dueMs).Sound (Defaulting roles config) useful (traded + n) := by
  unfold payOrAccept
  by_cases hn : n = 0
  · rw [if_pos hn]
    exact hn ▸ h
  rw [if_neg hn]
  split
  swap
  · exact acceptPeerCredit_sound h hpair hfits
  split
  · have hrefused : Round.Sound (Defaulting roles config) useful traded
        { s with plan := s.plan.recordRefusal pair } :=
      h.of_eq (Plan.figures_recordRefusal _ _) rfl
    exact acceptPeerCredit_sound hrefused hpair hfits
  next hpays =>
    have htried := s.plan.figures_trySettlement pair dueMs 5
    generalize s.plan.trySettlement pair dueMs 5 = attempt at htried ⊢
    obtain ⟨paid, tried⟩ := attempt
    dsimp only at htried ⊢
    have hkept : Round.Sound (Defaulting roles config) useful traded { s with plan := tried } :=
      h.of_eq htried rfl
    split
    · -- the credit of the pair was settled already, and is only struck out
      have hstruck : Round.Sound (Defaulting roles config) useful traded
          { plan := tried, credit := s.credit.erase pair } := by
        refine hkept.repay (n := s.balance pair) (by omega) le_rfl ?_ ?_
        · rw [if_neg (show ¬ Defaulting roles config pair from hpays)]
        · rw [Finmap.toFinsupp_erase]
          exact congrArg _ (Nat.sub_self _).symm
      refine hstruck.pay hfits ?_ rfl
      dsimp only
      rw [Plan.figures_markSettled _ _ (hpair.honest _), Plan.figures_earn _ _ (hpair.honest _),
        Plan.figures_recordRouteSettlement]
    · exact acceptPeerCredit_sound hkept hpair hfits

theorem balance_payOrAccept {other : Pair} (h : other ≠ pair) (dueMs : ℕ) :
    (payOrAccept s pair n dueMs).balance other = s.balance other := by
  unfold payOrAccept
  split
  · rfl
  split
  swap
  · exact balance_acceptPeerCredit h
  split
  · exact balance_acceptPeerCredit h
  dsimp only
  split
  · rw [Round.balance, Finmap.lookup_erase_ne h, Round.balance]
  · exact balance_acceptPeerCredit h

theorem settleNet_sound (h : s.Sound (Defaulting roles config) useful traded)
    (hlegit : n ≠ 0 → Legit roles pair) (hfits : traded + n ≤ u64Max) (dueMs : ℕ) :
    (settleNet s pair n dueMs).Sound (Defaulting roles config) useful (traded + n) := by
  unfold settleNet
  by_cases hn : n = 0
  · rw [if_pos hn]
    exact hn ▸ h
  rw [if_neg hn]
  have hsplit : traded + min n (s.balance pair.swap) + (n - min n (s.balance pair.swap))
      = traded + n := by omega
  have hnetted := netReverse_sound (n := n) h (hlegit hn) (by omega)
  rw [← hsplit] at hfits ⊢
  exact payOrAccept_sound hnetted (hlegit hn) hfits dueMs

/-- The credit of `pair` grows only once its counterpart owes nothing. -/
theorem settleNet_netted (h : s.books.Netted Pair.swap) (hlegit : n ≠ 0 → Legit roles pair)
    (dueMs : ℕ) : (settleNet s pair n dueMs).books.Netted Pair.swap := by
  unfold settleNet
  by_cases hn : n = 0
  · rwa [if_pos hn]
  rw [if_neg hn]
  have howed := toFinsupp_netReverse s pair n
  have hswap : ∀ other, (netReverse s pair n).balance other
      = if other = pair.swap then s.balance pair.swap - min n (s.balance pair.swap)
        else s.balance other := by
    intro other
    have := DFunLike.congr_fun howed other
    rwa [Finsupp.update_apply] at this
  have hnetted : (netReverse s pair n).books.Netted Pair.swap := by
    refine h.mono fun other => ?_
    rw [Round.owed_books, Round.owed_books, hswap]
    split
    next heq =>
      subst heq
      exact Nat.sub_le _ _
    · exact le_rfl
  by_cases hrest : n - min n (s.balance pair.swap) = 0
  · rw [hrest, payOrAccept, if_pos rfl]
    exact hnetted
  · have hne : pair.swap ≠ pair := fun heq =>
      (hlegit hn).1 (congrArg Pair.provider heq)
    refine hnetted.update Pair.swap_swap hne ?_ fun other hother => ?_
    · rw [Round.owed_books, hswap, if_pos rfl]
      omega
    · exact balance_payOrAccept hother dueMs

/-- One round of `plan_accepted_mint_batch`. -/
theorem acceptedBatchRound_sound (h : s.Sound (Defaulting roles config) useful traded)
    (group : Group) (hserved : Served (Legit roles) group.low group.high group.totals)
    (hfits : traded + group.size ≤ u64Max) :
    (acceptedBatchRound s group).Sound (Defaulting roles config) useful
      (traded + group.size) := by
  have hsize := group.offset_add_net
  rw [← hsize, ← Nat.add_assoc] at hfits ⊢
  exact settleNet_sound (setOff_sound h group hserved (by omega)) (net_legit hserved) hfits _

/-- A round of `plan_accepted_mint_batch` leaves no two nodes with credit against each
other. -/
theorem acceptedBatchRound_netted (h : s.books.Netted Pair.swap) (group : Group)
    (hserved : Served (Legit roles) group.low group.high group.totals) :
    (acceptedBatchRound s group).books.Netted Pair.swap := by
  refine settleNet_netted (h.mono fun other => ?_) (net_legit hserved) _
  have hcredit : (s.setOff group).credit = s.credit := by
    unfold Round.setOff
    split <;> rfl
  rw [Round.owed_books, Round.owed_books, Round.balance, hcredit]
  exact le_rfl

end Steps

/-! ## Whole plans -/

section Runs

variable {unsecured : Pair → Prop} [DecidablePred unsecured] {useful traded : ℕ}

/-- Nothing is booked before the first group. -/
theorem start_sound (workload : PricedWorkload) :
    (Round.start strategy workload roles config).Sound unsecured workload.usefulValueSat 0 := by
  have hfigures : (Round.start strategy workload roles config).plan.figures
      = ⟨workload.usefulValueSat, 0, 0, 0, 0, 0⟩ :=
    (Plan.figures_foldl (fun plan (batch : Batch) => plan.figures_recordState batch.pair) _ _).trans
      (Plan.figures_new workload)
  have hcredit : (Round.start strategy workload roles config).credit.toFinsupp = 0 := by
    ext pair
    rfl
  have hbooks := Round.books_eq hfigures hcredit
  refine ⟨hbooks ▸ .start, ?_, ?_, ?_, ?_, ?_⟩
  · rw [hbooks]
    exact fun _ => Nat.zero_le _
  · rw [hbooks]
    exact fun _ h => absurd rfl h
  · rw [hfigures]
  · rw [hfigures]
    exact Nat.zero_le _
  · rw [hfigures]
    exact Nat.zero_le _

/-- What a round keeps, a run of rounds keeps. -/
theorem run_sound {round : Round strategy roles config → Group → Round strategy roles config}
    (hround : ∀ {s : Round strategy roles config} {traded : ℕ},
      s.Sound unsecured useful traded → ∀ group : Group,
        Served (Legit roles) group.low group.high group.totals →
        traded + group.size ≤ u64Max →
          (round s group).Sound unsecured useful (traded + group.size))
    {s : Round strategy roles config} (h : s.Sound unsecured useful 0) (groups : List Group)
    (hserved : ∀ group ∈ groups, Served (Legit roles) group.low group.high group.totals)
    (hfits : (groups.map Group.size).sum ≤ u64Max) :
    (groups.foldl round s).Sound unsecured useful (groups.map Group.size).sum := by
  induction groups using List.reverseRecOn with
  | nil => exact h
  | append_singleton groups group ih =>
    rw [List.map_append, List.sum_append, List.map_singleton, List.sum_singleton] at hfits ⊢
    rw [List.foldl_append, List.foldl_cons, List.foldl_nil]
    have hbefore := ih (fun g hg => hserved g (List.mem_append_left _ hg)) (by omega)
    exact hround hbefore group (hserved group (List.mem_append_right _ List.mem_cons_self)) hfits

theorem acceptedBatchRun_netted {workload : PricedWorkload} (groups : List Group)
    (hserved : ∀ group ∈ groups, Served (Legit roles) group.low group.high group.totals) :
    (acceptedBatchRun workload roles config groups).books.Netted Pair.swap := by
  induction groups using List.reverseRecOn with
  | nil => exact fun _ => Or.inl rfl
  | append_singleton groups group ih =>
    rw [acceptedBatchRun, List.foldl_append, List.foldl_cons, List.foldl_nil]
    exact acceptedBatchRound_netted (ih fun g hg => hserved g (List.mem_append_left _ hg)) group
      (hserved group (List.mem_append_right _ List.mem_cons_self))

/-- Leaving debts below `cap` changes no figure but the exposure, and keeps it below `cap`. -/
theorem figures_leaveDebts {cap : ℕ} (entries : List (Sigma fun _ : Pair => ℕ))
    (hentries : ∀ entry ∈ entries, entry.2 ≤ cap) :
    ∀ plan : Plan strategy roles config, plan.figures.exposure ≤ cap →
      ∃ exposure ≤ cap,
        (entries.foldl (fun plan entry => leaveDebt plan entry.1 entry.2) plan).figures =
          { plan.figures with exposure := exposure } := by
  induction entries with
  | nil => exact fun plan hplan => ⟨plan.figures.exposure, hplan, rfl⟩
  | cons entry rest ih =>
    intro plan hplan
    obtain ⟨hentry, hrest⟩ := List.forall_mem_cons.mp hentries
    have hleft : (leaveDebt plan entry.1 entry.2).figures = plan.figures.expose entry.2 := by
      rw [leaveDebt, Plan.figures_recordUnpaid, Plan.figures_recordProviderExposure]
    obtain ⟨exposure, hle, h⟩ := ih hrest (leaveDebt plan entry.1 entry.2)
      (hleft ▸ max_le hplan hentry)
    refine ⟨exposure, hle, h.trans ?_⟩
    rw [hleft]
    rfl

/-- Leaving credit changes no figure but the exposure. -/
theorem figures_leaveCredits (entries : List (Sigma fun _ : Pair => ℕ)) :
    ∀ plan : Plan strategy roles config, ∃ exposure,
      (entries.foldl (fun plan entry => leaveCredit plan entry.1 entry.2) plan).figures =
        { plan.figures with exposure := exposure } := by
  induction entries with
  | nil => exact fun plan => ⟨plan.figures.exposure, rfl⟩
  | cons entry rest ih =>
    intro plan
    obtain ⟨exposure, h⟩ := ih (leaveCredit plan entry.1 entry.2)
    refine ⟨exposure, h.trans ?_⟩
    rw [leaveCredit, Plan.figures_recordProviderExposure, Plan.figures_recordUnpaid,
      Plan.figures_recordOutstanding]
    rfl

/-- The figures of a report account for `value`. -/
structure IncentiveReport.Conserves (report : IncentiveReport) (value : ℕ) : Prop where
  useful : report.usefulValueSat = value
  /-- Every satoshi is earned or denied. -/
  value : report.honestEarnedSat + report.authorizationDeniedSat = value
  settled : report.honestSettledByDeadlineSat ≤ report.honestEarnedSat

theorem conserves_of_sound {s : Round strategy roles config} {report : IncentiveReport}
    (h : s.Sound unsecured useful useful)
    (hfigures : ∃ exposure, report.figures = { s.plan.figures with exposure := exposure }) :
    report.Conserves useful := by
  obtain ⟨exposure, hfigures⟩ := hfigures
  have huseful : report.usefulValueSat = s.plan.figures.useful :=
    congrArg Figures.useful hfigures
  have hearned : report.honestEarnedSat = s.books.earned := congrArg Figures.earned hfigures
  have hsettled : report.honestSettledByDeadlineSat = s.books.settled :=
    congrArg Figures.settled hfigures
  have hdenied : report.authorizationDeniedSat = s.books.denied :=
    congrArg Figures.denied hfigures
  refine ⟨huseful.trans h.useful_eq, ?_, ?_⟩
  · rw [hearned, hdenied]
    exact h.balanced.value
  · rw [hearned, hsettled]
    exact h.balanced.settled_le

/-- What a strategy promises of its credit, after any number of settlement groups: no pair
owes more than the cap. -/
def CreditCapped (config : IncentiveConfig) (groups : List Group)
    (run : List Group → Round strategy roles config) : Prop :=
  ∀ k pair, (run (groups.take k)).balance pair ≤ config.offlineCreditCapSat

/-- No two nodes ever hold positive credit against each other. -/
def NeverMutual (groups : List Group) (run : List Group → Round strategy roles config) : Prop :=
  ∀ k pair, ¬ (0 < (run (groups.take k)).balance pair ∧
    0 < (run (groups.take k)).balance pair.swap)

theorem creditCapped_of_sound {groups : List Group}
    {run : List Group → Round strategy roles config}
    (h : ∀ k, (run (groups.take k)).Sound unsecured useful ((groups.take k).map Group.size).sum) :
    CreditCapped config groups run := fun k pair => (h k).capped pair

/-- Pricing and the two credit strategies conserve value. -/
theorem value_conserved {records : List VerifiedDeliveryRecord} {roles : List NodeRole}
    (hvalid : validateRecords records roles.length = .ok ()) {bytesPerSat : ℕ}
    (hb : 1 ≤ bytesPerSat) (config : IncentiveConfig) :
    (∀ records', records.Perm records' →
      priceRecords records' bytesPerSat = priceRecords records bytesPerSat) ∧
    (totalBytes records ≤ u64Max →
      let workload := priceRecords records bytesPerSat
      let groups := settlementGroups workload config
      (workload.usefulBytes
          = workload.usefulValueSat * bytesPerSat + workload.pricingDustBytes ∧
        ∀ pair remainder, (pricing records bytesPerSat).remainders.lookup pair = some remainder →
          remainder < bytesPerSat) ∧
      ((∀ record ∈ records, roles[record.provider]? ≠ some .attacker) →
        (planAcceptedMintBatch workload roles config).Conserves workload.usefulValueSat ∧
        (planPeerCredit workload roles config).Conserves workload.usefulValueSat ∧
        CreditCapped config groups (acceptedBatchRun workload roles config) ∧
        (planAcceptedMintBatch workload roles config).maxPairPeerCreditSat
          ≤ config.offlineCreditCapSat ∧
        CreditCapped config groups (peerCreditRun workload roles config) ∧
        (planPeerCredit workload roles config).providerUnpaidExposureSat
          ≤ config.offlineCreditCapSat ∧
        NeverMutual groups (acceptedBatchRun workload roles config))) := by
  have hrecords := valid_of_validateRecords hvalid
  refine ⟨fun records' hperm => ?_, fun hfits => ?_⟩
  · rw [priceRecords, hrecords.pricing_eq hperm]
    rfl
  have hpriced := priced_pricing hb hfits
  intro workload groups
  refine ⟨⟨hpriced.value, hpriced.remainder⟩, fun hhonest => ?_⟩
  -- the value of the workload is carried by its settlement groups
  have hvalue : totalSat workload.obligations = workload.usefulValueSat := hpriced.obligations
  have hsat : totalSat workload.obligations ≤ u64Max := by
    have hmul := Nat.le_mul_of_pos_right workload.usefulValueSat hb
    have hbytes : totalBytes (sortByRank VerifiedDeliveryRecord.rank records)
        = totalBytes records := ((perm_sortByRank _ records).map _).sum_eq
    have huseful := hpriced.bytes
    have hsplit := hpriced.value
    rw [hvalue]
    show (pricing records bytesPerSat).usefulValueSat ≤ u64Max
    change (pricing records bytesPerSat).usefulValueSat
      ≤ (pricing records bytesPerSat).usefulValueSat * bytesPerSat at hmul
    omega
  have hlegit : ∀ obligation ∈ workload.obligations, Legit roles obligation.pair := by
    intro obligation hobligation
    obtain ⟨record, hrecord, hpair⟩ := hpriced.served obligation hobligation
    rw [mem_sortByRank] at hrecord
    rw [← hpair]
    exact ⟨(hrecords.remote record hrecord).1.symm, hhonest record hrecord⟩
  obtain ⟨hsum, hserved⟩ := settlementGroups_spec config hsat hlegit
  have hpart : ∀ k, (∀ group ∈ groups.take k,
      Served (Legit roles) group.low group.high group.totals) ∧
        ((groups.take k).map Group.size).sum ≤ u64Max := by
    intro k
    refine ⟨fun group hgroup => hserved group (List.mem_of_mem_take hgroup), ?_⟩
    exact ((((List.take_sublist k groups).map Group.size).sum_le_sum
      fun _ _ => Nat.zero_le _).trans hsum.le).trans hsat
  have hbatch : ∀ k, (acceptedBatchRun workload roles config (groups.take k)).Sound
      (Defaulting roles config) workload.usefulValueSat ((groups.take k).map Group.size).sum :=
    fun k => run_sound acceptedBatchRound_sound (start_sound workload) _ (hpart k).1 (hpart k).2
  have hcredit : ∀ k, (peerCreditRun workload roles config (groups.take k)).Sound
      AnyPair workload.usefulValueSat ((groups.take k).map Group.size).sum :=
    fun k => run_sound peerCreditRound_sound (start_sound workload) _ (hpart k).1 (hpart k).2
  have hwhole : ((groups.take groups.length).map Group.size).sum = workload.usefulValueSat := by
    rw [List.take_length, hsum, hvalue]
  have hbatchEnd := hbatch groups.length
  have hcreditEnd := hcredit groups.length
  rw [hwhole, List.take_length] at hbatchEnd hcreditEnd
  obtain ⟨batchExposure, hbatchFigures⟩ := figures_leaveCredits
    ((Enumeration.ascending _).visit (acceptedBatchRun workload roles config groups).credit)
    (acceptedBatchRun workload roles config groups).plan
  obtain ⟨exposure, hexposure, hcreditFigures⟩ := figures_leaveDebts
    ((Enumeration.ascending _).visit (peerCreditRun workload roles config groups).credit)
    (fun entry hentry => by
      have hlookup := (Enumeration.ascending _).mem_visit.mp hentry
      have hcap := hcreditEnd.capped entry.1
      rwa [Round.owed_books, Round.balance, hlookup] at hcap)
    (peerCreditRun workload roles config groups).plan hcreditEnd.exposure_le
  have hbatchReport := (Plan.figures_finish _).trans hbatchFigures
  have hcreditReport := (Plan.figures_finish _).trans hcreditFigures
  refine ⟨conserves_of_sound hbatchEnd ⟨_, hbatchReport⟩,
    conserves_of_sound hcreditEnd ⟨_, hcreditReport⟩, creditCapped_of_sound hbatch, ?_,
    creditCapped_of_sound hcredit, ?_, fun k pair => ?_⟩
  · exact (congrArg Figures.peak hbatchReport).trans_le hbatchEnd.peak_le
  · exact (congrArg Figures.exposure hcreditReport).trans_le hexposure
  · rintro ⟨hpair, hswap⟩
    rcases acceptedBatchRun_netted _ (hpart k).1 pair with h | h
    · exact hpair.ne' h
    · exact hswap.ne' h

/-- Three nodes that serve each other on credit. -/
theorem value_conserved_three :
    let records : List VerifiedDeliveryRecord :=
      [⟨"a", 0, 1, 40, 1⟩, ⟨"b", 1, 0, 7, 3⟩, ⟨"c", 0, 1, 30, 11⟩, ⟨"d", 1, 0, 45, 21⟩,
        ⟨"e", 2, 1, 13, 22⟩]
    let config : IncentiveConfig := { batchIntervalMs := 10, cashuMinSettlementSat := 100 }
    validateRecords records 3 = .ok () ∧
    (planPeerCredit (priceRecords records 2) [.peer, .peer, .supernode] config).Conserves
      (priceRecords records 2).usefulValueSat := by
  intro records config
  have hvalid : validateRecords records 3 = .ok () := rfl
  refine ⟨hvalid, ?_⟩
  have hfits : totalBytes records ≤ u64Max := by decide
  have hhonest : ∀ record ∈ records,
      ([.peer, .peer, .supernode] : List NodeRole)[record.provider]? ≠ some .attacker := by decide
  exact (((@value_conserved records [.peer, .peer, .supernode] hvalid 2 (by decide) config).2
    hfits).2 hhonest).2.1

end Runs

end NostrPubsub.Sim
