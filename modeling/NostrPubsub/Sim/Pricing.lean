import NostrPubsub.Sim.Incentives
import NostrPubsub.ToMathlib.Except

/-!
# Pricing of delivery records

What `price_records` does with a valid list of records: no two of them share a sort key, so
that the order in which they are given does not matter, and, as long as no counter
saturates, every byte is either paid for in whole satoshis or left in the remainder of its
pair.

## Main results

* `Valid.pricing_eq`: the price is the same for every order of the records;
* `priced_pricing`: the figures of `price_records` add up.
-/

namespace NostrPubsub.Sim

/-! ## Valid records -/

/-- What `validate_records` requires. -/
structure Valid (records : List VerifiedDeliveryRecord) (nodeCount : ℕ) : Prop where
  inRange : ∀ record ∈ records, record.provider < nodeCount ∧ record.receiver < nodeCount
  /-- The service is remote and not empty. -/
  remote : ∀ record ∈ records, record.provider ≠ record.receiver ∧ 0 < record.payloadBytes
  /-- Every receiver accepts an event once. -/
  first : (records.map fun record => (record.eventId, record.receiver)).Nodup

theorem validateRecord_eq_ok {nodeCount : ℕ} {accepted accepted' : List (String × ℕ)}
    {record : VerifiedDeliveryRecord}
    (h : validateRecord nodeCount accepted record = .ok accepted') :
    (record.provider < nodeCount ∧ record.receiver < nodeCount) ∧
    (record.provider ≠ record.receiver ∧ 0 < record.payloadBytes) ∧
    (record.eventId, record.receiver) ∉ accepted ∧
    accepted' = (record.eventId, record.receiver) :: accepted := by
  unfold validateRecord at h
  split at h
  · cases h
  next hrange =>
  split at h
  · cases h
  next hremote =>
  split at h
  · cases h
  next hnew =>
  obtain rfl := Except.ok.inj h
  exact ⟨by omega, by omega, hnew, rfl⟩

theorem valid_of_foldlM {nodeCount : ℕ} {records : List VerifiedDeliveryRecord} :
    ∀ {accepted accepted' : List (String × ℕ)},
      records.foldlM (validateRecord nodeCount) accepted = .ok accepted' →
      Valid records nodeCount ∧
        ∀ record ∈ records, (record.eventId, record.receiver) ∉ accepted := by
  induction records with
  | nil =>
    intro accepted accepted' _
    exact ⟨⟨nofun, nofun, List.nodup_nil⟩, nofun⟩
  | cons record rest ih =>
    intro accepted accepted' h
    rw [List.foldlM_cons] at h
    obtain ⟨next, hrecord, hrest⟩ := Except.bind_eq_ok.mp h
    obtain ⟨hrange, hremote, hnew, rfl⟩ := validateRecord_eq_ok hrecord
    obtain ⟨hvalid, hfresh⟩ := ih hrest
    refine ⟨⟨?_, ?_, ?_⟩, ?_⟩
    · exact List.forall_mem_cons.mpr ⟨hrange, hvalid.inRange⟩
    · exact List.forall_mem_cons.mpr ⟨hremote, hvalid.remote⟩
    · rw [List.map_cons, List.nodup_cons]
      refine ⟨fun hmem => ?_, hvalid.first⟩
      obtain ⟨other, hother, heq⟩ := List.mem_map.mp hmem
      exact hfresh other hother (heq ▸ List.mem_cons_self)
    · exact List.forall_mem_cons.mpr
        ⟨hnew, fun other hother hmem => hfresh other hother (List.mem_cons_of_mem _ hmem)⟩

theorem valid_of_validateRecords {records : List VerifiedDeliveryRecord} {nodeCount : ℕ}
    (h : validateRecords records nodeCount = .ok ()) : Valid records nodeCount := by
  obtain ⟨accepted, haccepted, _⟩ := Except.bind_eq_ok.mp h
  exact (valid_of_foldlM haccepted).1

/-- An event and its receiver can be read off the sort key. -/
theorem Valid.nodup_rank {records : List VerifiedDeliveryRecord} {nodeCount : ℕ}
    (h : Valid records nodeCount) : (records.map VerifiedDeliveryRecord.rank).Nodup := by
  have hread : (records.map VerifiedDeliveryRecord.rank).map
      (fun rank => ((ofLex (ofLex rank).2).1, (ofLex (ofLex (ofLex rank).2).2).1)) =
        records.map fun record => (record.eventId, record.receiver) :=
    List.map_map
  exact List.Nodup.of_map _ (hread ▸ h.first)

/-- The order of valid records does not matter. -/
theorem Valid.pricing_eq {records records' : List VerifiedDeliveryRecord} {nodeCount : ℕ}
    (h : Valid records nodeCount) (hperm : records.Perm records') (bytesPerSat : ℕ) :
    pricing records' bytesPerSat = pricing records bytesPerSat := by
  have hnodup := h.nodup_rank
  have hnodup' := (hperm.map VerifiedDeliveryRecord.rank).nodup_iff.mp hnodup
  have hsorted : sortByRank VerifiedDeliveryRecord.rank records'
      = sortByRank VerifiedDeliveryRecord.rank records := by
    refine IsLeading.eq_of_sorted (strict_sortByRank hnodup') (strict_sortByRank hnodup) ?_
    intro record
    rw [mem_sortByRank, mem_sortByRank, hperm.mem_iff]
  rw [pricing, pricing, hsorted]

/-! ## The figures -/

/-- The bytes delivered by a list of records. -/
def totalBytes (records : List VerifiedDeliveryRecord) : ℕ :=
  (records.map (·.payloadBytes)).sum

/-- The value of a list of obligations. -/
def totalSat (obligations : List Obligation) : ℕ := (obligations.map (·.amountSat)).sum

theorem satAdd_eq {a b : ℕ} (h : a + b ≤ u64Max) : satAdd a b = a + b := min_eq_left h

/-- `s` prices `records`: every byte is paid for in whole satoshis or left in the remainder
of its pair. -/
structure Priced (bytesPerSat : ℕ) (records : List VerifiedDeliveryRecord) (s : Pricing) :
    Prop where
  bytes : s.usefulBytes = totalBytes records
  value : s.usefulBytes = s.usefulValueSat * bytesPerSat + s.remainders.total fun _ n => n
  remainder : ∀ pair n, s.remainders.lookup pair = some n → n < bytesPerSat
  obligations : totalSat s.obligations = s.usefulValueSat
  served : ∀ obligation ∈ s.obligations, ∃ record ∈ records, record.pair = obligation.pair

namespace Priced

variable {bytesPerSat : ℕ} {records : List VerifiedDeliveryRecord} {s : Pricing}

theorem start : Priced bytesPerSat [] {} where
  bytes := rfl
  value := (Nat.zero_mul _).symm
  remainder _ _ h := nomatch h
  obligations := rfl
  served := nofun

/-- A remainder is part of the bytes counted so far. -/
theorem remainder_le (h : Priced bytesPerSat records s) (pair : Pair) :
    (s.remainders.lookup pair).getD 0 ≤ totalBytes records := by
  rw [← h.bytes, h.value]
  cases hlookup : s.remainders.lookup pair with
  | none => exact Nat.zero_le _
  | some n =>
    rw [Finmap.total_eq_add_erase _ hlookup, Option.getD_some]
    omega

/-- One more record is priced. -/
theorem add (h : Priced bytesPerSat records s) (hb : 1 ≤ bytesPerSat)
    (record : VerifiedDeliveryRecord) (hfits : totalBytes (records ++ [record]) ≤ u64Max) :
    Priced bytesPerSat (records ++ [record]) (s.add bytesPerSat record) := by
  have htotal : totalBytes (records ++ [record]) = totalBytes records + record.payloadBytes := by
    simp [totalBytes]
  rw [htotal] at hfits
  have hold := h.remainder_le record.pair
  have hbytes : s.bytes record
      = (s.remainders.lookup record.pair).getD 0 + record.payloadBytes :=
    satAdd_eq (by omega)
  have huseful : satAdd s.usefulBytes record.payloadBytes
      = totalBytes (records ++ [record]) := by
    rw [satAdd_eq (by rw [h.bytes]; exact hfits), h.bytes, htotal]
  -- the bytes of the pair go into whole satoshis and the new remainder
  have hsplit := Nat.div_add_mod (s.bytes record) bytesPerSat
  have hcarry := Finmap.total_insert_getD (f := fun (_ : Pair) (n : ℕ) => n) (d := 0)
    (a := record.pair) rfl s.remainders (s.bytes record % bytesPerSat)
  have hvalue := h.value
  rw [h.bytes] at hvalue
  have hremainder : ∀ pair n,
      (s.remainders.insert record.pair (s.bytes record % bytesPerSat)).lookup pair = some n →
        n < bytesPerSat := by
    intro pair n hlookup
    rcases Finmap.lookup_insert_eq_some.mp hlookup with ⟨_, rfl⟩ | ⟨_, hlookup⟩
    · exact Nat.mod_lt _ hb
    · exact h.remainder pair n hlookup
  unfold Pricing.add
  by_cases hamount : s.bytes record / bytesPerSat = 0
  · rw [if_pos hamount]
    refine ⟨huseful, ?_, hremainder, h.obligations, ?_⟩
    · show satAdd s.usefulBytes record.payloadBytes = s.usefulValueSat * bytesPerSat
        + (s.remainders.insert record.pair (s.bytes record % bytesPerSat)).total fun _ n => n
      rw [hamount, Nat.mul_zero] at hsplit
      omega
    · intro obligation hobligation
      obtain ⟨served, hserved, hpair⟩ := h.served obligation hobligation
      exact ⟨served, List.mem_append_left _ hserved, hpair⟩
  · rw [if_neg hamount]
    rw [Nat.mul_comm] at hsplit
    have hroom : s.usefulValueSat ≤ s.usefulValueSat * bytesPerSat := Nat.le_mul_of_pos_right _ hb
    have hmore : s.bytes record / bytesPerSat ≤ s.bytes record / bytesPerSat * bytesPerSat :=
      Nat.le_mul_of_pos_right _ hb
    have hsat : satAdd s.usefulValueSat (s.bytes record / bytesPerSat)
        = s.usefulValueSat + s.bytes record / bytesPerSat := satAdd_eq (by omega)
    refine ⟨huseful, ?_, hremainder, ?_, ?_⟩
    · show satAdd s.usefulBytes record.payloadBytes
        = satAdd s.usefulValueSat (s.bytes record / bytesPerSat) * bytesPerSat
          + (s.remainders.insert record.pair (s.bytes record % bytesPerSat)).total fun _ n => n
      rw [hsat, Nat.add_mul]
      omega
    · show totalSat (s.obligations ++ [_]) = satAdd s.usefulValueSat _
      have := h.obligations
      simp only [totalSat, List.map_append, List.sum_append, List.map_cons, List.map_nil,
        List.sum_singleton] at this ⊢
      rw [hsat, this]
    · intro obligation hobligation
      rcases List.mem_append.mp hobligation with hobligation | hobligation
      · obtain ⟨served, hserved, hpair⟩ := h.served obligation hobligation
        exact ⟨served, List.mem_append_left _ hserved, hpair⟩
      · obtain rfl := List.mem_singleton.mp hobligation
        exact ⟨record, List.mem_append_right _ List.mem_cons_self, rfl⟩

end Priced

theorem priced_foldl {bytesPerSat : ℕ} (hb : 1 ≤ bytesPerSat)
    (records : List VerifiedDeliveryRecord) (hfits : totalBytes records ≤ u64Max) :
    Priced bytesPerSat records (records.foldl (Pricing.add bytesPerSat) {}) := by
  induction records using List.reverseRecOn with
  | nil => exact .start
  | append_singleton records record ih =>
    rw [List.foldl_append]
    refine (ih (le_trans ?_ hfits)).add hb record hfits
    simp [totalBytes]

/-- The figures of `price_records` add up, unless the bytes are too many for a counter. -/
theorem priced_pricing {bytesPerSat : ℕ} (hb : 1 ≤ bytesPerSat)
    {records : List VerifiedDeliveryRecord} (hfits : totalBytes records ≤ u64Max) :
    Priced bytesPerSat (sortByRank VerifiedDeliveryRecord.rank records)
      (pricing records bytesPerSat) := by
  have hsorted : totalBytes (sortByRank VerifiedDeliveryRecord.rank records)
      = totalBytes records := ((perm_sortByRank _ records).map _).sum_eq
  exact priced_foldl hb _ (hsorted ▸ hfits)

end NostrPubsub.Sim
