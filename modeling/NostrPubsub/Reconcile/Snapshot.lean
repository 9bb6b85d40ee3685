import NostrPubsub.Reconcile.Wire
import NostrPubsub.ToMathlib.Cut
import NostrPubsub.ToMathlib.Leading

/-!
# Snapshots of records

The sealed storage of a session: its records in the order of their timestamps and ids, no id
twice. `Bound`, `find_lower_bound`, `iterate` and the fingerprint belong to the `negentropy`
crate and follow its documentation; SHA-256 is a parameter.
-/

namespace NostrPubsub.Reconcile

/-- A record of a snapshot. The last timestamp is not one of a record: it stands for infinity, and
`Session::new` refuses a window that reaches it. -/
@[ext]
structure Item where
  timestamp : ℕ
  id : Id
  timestamp_lt : timestamp < u64Max
  deriving DecidableEq

/-- The place of a record: by timestamp, then by id. -/
def Item.position (item : Item) : ℕ ×ₗ List ℕ := toLex (item.timestamp, EventId.key item.id)

theorem Item.position_lt_iff {a b : Item} : a.position < b.position ↔
    a.timestamp < b.timestamp ∨ a.timestamp = b.timestamp ∧ EventId.key a.id < EventId.key b.id :=
  Prod.Lex.lt_iff

/-- `Bound::from_item`. -/
def Item.toBound (item : Item) : Bound :=
  ⟨item.timestamp, item.id.toList, item.timestamp_lt.le, item.id.toList_length.le⟩

@[simp]
theorem Item.position_toBound (item : Item) : item.toBound.position = item.position := by
  simp [Item.toBound, Bound.position, Item.position, padKey, EventId.key, idSize]

theorem Item.position_injective : Function.Injective Item.position := by
  intro a b h
  have hpair := toLex.injective h
  exact Item.ext (congrArg Prod.fst hpair) (EventId.key_injective (congrArg Prod.snd hpair))

/-- Filling up with zeros goes down in the order of keys. -/
theorem take_zeros_le (l : List ℕ) (k : ℕ) : l.take k ++ List.replicate (l.length - k) 0 ≤ l := by
  induction l generalizing k with
  | nil => simp
  | cons n l ih =>
    refine not_lt.mp fun hlt => ?_
    cases k with
    | zero =>
      rw [List.take_zero, List.nil_append, Nat.sub_zero, List.length_cons, List.replicate_succ,
        List.cons_lt_cons_iff] at hlt
      have hzeros := ih 0
      rw [List.take_zero, List.nil_append, Nat.sub_zero] at hzeros
      rcases hlt with hlt | ⟨-, hlt⟩
      · exact absurd hlt (Nat.not_lt_zero _)
      · exact absurd hlt (not_lt.mpr hzeros)
    | succ k =>
      rw [List.take_succ_cons, List.length_cons, Nat.add_sub_add_right, List.cons_append,
        List.cons_lt_cons_iff] at hlt
      rcases hlt with hlt | ⟨-, hlt⟩
      · exact absurd hlt (lt_irrefl _)
      · exact absurd hlt (not_lt.mpr (ih k))

theorem length_key (id : Id) : (EventId.key id).length = idSize := by simp [EventId.key, idSize]

theorem padKey_take (id : Id) (k : ℕ) :
    padKey (id.toList.take k)
      = (EventId.key id).take k ++ List.replicate ((EventId.key id).length - k) 0 := by
  have hlen : idSize - (id.toList.take k).length = idSize - k := by
    simp only [List.length_take, List.Vector.toList_length, idSize]
    omega
  rw [padKey, hlen, length_key, EventId.key, List.map_take]

theorem Bound.zero_le_position (item : Item) : Bound.zero.position ≤ item.position := by
  refine Prod.Lex.le_iff.mpr ?_
  rcases Nat.eq_zero_or_pos item.timestamp with h | h
  · refine .inr ⟨h.symm, ?_⟩
    have hkey := take_zeros_le (EventId.key item.id) 0
    rwa [← padKey_take, List.take_zero] at hkey
  · exact .inl h

theorem Item.position_lt_infinity (item : Item) : item.position < Bound.infinity.position :=
  Prod.Lex.lt_iff.mpr (.inl item.timestamp_lt)

/-- The sealed storage. -/
structure Snapshot where
  items : List Item
  sorted : items.Pairwise fun a b => a.position < b.position
  nodup : (items.map Item.id).Nodup

/-- `NegentropyStorageVector::seal`: the records that were inserted, in order. -/
def Snapshot.seal (unique : List Item) (nodup : (unique.map Item.id).Nodup) : Snapshot where
  items := sortByRank Item.position unique
  sorted := by
    apply strict_sortByRank
    have hitems : unique.Nodup := nodup.of_map
    exact hitems.map Item.position_injective
  nodup := by
    have hperm : (sortByRank Item.position unique).Perm unique := List.perm_insertionSort _ _
    exact (hperm.map Item.id).nodup_iff.mpr nodup

variable (snapshot : Snapshot)

/-- The index of the first record at or after a position. -/
def Snapshot.cut (position : ℕ ×ₗ List ℕ) : ℕ := snapshot.items.cutAt Item.position position

/-- The records from one position up to another. -/
def Snapshot.between (start stop : ℕ ×ₗ List ℕ) : List Item :=
  snapshot.items.filter fun item => start ≤ item.position ∧ item.position < stop

theorem Snapshot.cut_le (position : ℕ ×ₗ List ℕ) : snapshot.cut position ≤ snapshot.items.length :=
  List.cutAt_le_length _ _

@[simp]
theorem Snapshot.cut_zero : snapshot.cut Bound.zero.position = 0 :=
  List.cutAt_eq_of (Nat.zero_le _) (fun _ _ h => absurd h (Nat.not_lt_zero _))
    fun _ _ _ => Bound.zero_le_position _

/-- Every record is before a bound whose timestamp is the last one. -/
theorem Snapshot.cut_of_max {bound : Bound} (h : bound.timestamp = u64Max) :
    snapshot.cut bound.position = snapshot.items.length :=
  List.cutAt_eq_of le_rfl
    (fun _ _ _ => Prod.Lex.lt_iff.mpr (.inl ((Item.timestamp_lt _).trans_eq h.symm)))
    fun _ h hle => absurd h (not_lt.mpr hle)

variable {snapshot} in
theorem Snapshot.extract_cut {start stop : ℕ ×ₗ List ℕ} (h : start ≤ stop) :
    snapshot.items.extract (snapshot.cut start) (snapshot.cut stop) = snapshot.between start stop :=
  List.extract_cutAt snapshot.sorted h

/-! ## Fingerprints -/

/-- The little-endian number of an id. -/
def idNumber (id : Id) : ℕ := Nat.ofDigits 256 (id.toList.map UInt8.toNat)

/-- The low `width` bytes of a number, least significant first. -/
def littleEndian : ℕ → ℕ → List UInt8
  | 0, _ => []
  | width + 1, n => UInt8.ofNat (n % 256) :: littleEndian width (n / 256)

variable (sha256 : List UInt8 → List.Vector UInt8 32)

/-- The fingerprint of records: the sum of their ids modulo 2^256 and their number, hashed. -/
def fingerprintOf (items : List Item) : Fingerprint :=
  let sum := (items.map fun item => idNumber item.id).sum % 2 ^ 256
  (sha256 (littleEndian 32 sum ++ encodeVarInt items.length)).take 16

/-- `NegentropyStorageBase::fingerprint`, between two indices. -/
def Snapshot.fingerprint (begin_ end_ : ℕ) : Fingerprint :=
  fingerprintOf sha256 (snapshot.items.extract begin_ end_)

/-! ## Bounds between records -/

/-- The number of leading bytes that two ids share. -/
def sharedPrefixBytes : List UInt8 → List UInt8 → ℕ
  | a :: as, b :: bs => if a = b then sharedPrefixBytes as bs + 1 else 0
  | _, _ => 0

/-- Two different ids share fewer bytes than they have. -/
theorem sharedPrefixBytes_lt {a b : List UInt8} (hlen : a.length = b.length) (hne : a ≠ b) :
    sharedPrefixBytes a b < a.length := by
  induction a generalizing b with
  | nil =>
    cases b with
    | nil => exact absurd rfl hne
    | cons y b => simp at hlen
  | cons x a ih =>
    cases b with
    | nil => simp at hlen
    | cons y b =>
      rw [sharedPrefixBytes]
      split
      · next hxy =>
        subst hxy
        have htail : a ≠ b := fun h => hne (by rw [h])
        exact Nat.succ_lt_succ (ih (by simpa using hlen) htail)
      · exact Nat.succ_pos _

/-- `get_minimal_bound`: the shortest bound that keeps two records apart. -/
def minimalBound (prev curr : Item) : Bound :=
  if curr.timestamp ≠ prev.timestamp then ⟨curr.timestamp, [], curr.timestamp_lt.le, Nat.zero_le _⟩
  else
    ⟨curr.timestamp, curr.id.toList.take (sharedPrefixBytes curr.id.toList prev.id.toList + 1),
      curr.timestamp_lt.le, (List.length_take_le' _ _).trans curr.id.toList_length.le⟩

@[simp]
theorem timestamp_minimalBound (prev curr : Item) :
    (minimalBound prev curr).timestamp = curr.timestamp := by
  rw [minimalBound]
  split <;> rfl

/-- The byte after the shared ones decides the order. -/
theorem lt_take_sharedPrefixBytes {a b : List UInt8} (rest : List ℕ)
    (h : a.map UInt8.toNat < b.map UInt8.toNat) (hlen : a.length = b.length) :
    a.map UInt8.toNat < (b.map UInt8.toNat).take (sharedPrefixBytes b a + 1) ++ rest := by
  induction a generalizing b with
  | nil =>
    cases b with
    | nil => exact absurd h (lt_irrefl _)
    | cons y b => simp at hlen
  | cons x a ih =>
    cases b with
    | nil => simp at hlen
    | cons y b =>
      rw [List.map_cons, List.map_cons, List.cons_lt_cons_iff] at h
      rw [sharedPrefixBytes]
      split
      · next hxy =>
        subst hxy
        have hlt := h.resolve_left (lt_irrefl _)
        exact List.cons_lt_cons_iff.mpr (.inr ⟨rfl, ih hlt.2 (by simpa using hlen)⟩)
      · next hxy =>
        have hlt := h.resolve_right fun hand => hxy (UInt8.toNat_inj.mp hand.1.symm)
        exact List.cons_lt_cons_iff.mpr (.inl hlt)

theorem position_lt_minimalBound {prev curr : Item} (h : prev.position < curr.position) :
    prev.position < (minimalBound prev curr).position := by
  rw [minimalBound]
  rcases Item.position_lt_iff.mp h with hlt | ⟨heq, hlt⟩
  · rw [if_pos (Nat.ne_of_gt hlt)]
    exact Prod.Lex.lt_iff.mpr (.inl hlt)
  · rw [if_neg (not_not.mpr heq.symm)]
    refine Prod.Lex.lt_iff.mpr (.inr ⟨heq, ?_⟩)
    show EventId.key prev.id < padKey _
    rw [padKey_take]
    exact lt_take_sharedPrefixBytes _ hlt (by simp)

theorem minimalBound_le_position {prev curr : Item} (h : prev.position < curr.position) :
    (minimalBound prev curr).position ≤ curr.position := by
  rw [minimalBound]
  rcases Item.position_lt_iff.mp h with hlt | ⟨heq, hlt⟩
  · rw [if_pos (Nat.ne_of_gt hlt)]
    refine Prod.Lex.le_iff.mpr (.inr ⟨rfl, ?_⟩)
    show padKey [] ≤ EventId.key curr.id
    rw [← List.take_zero (l := curr.id.toList), padKey_take]
    exact take_zeros_le _ _
  · rw [if_neg (not_not.mpr heq.symm)]
    refine Prod.Lex.le_iff.mpr (.inr ⟨rfl, ?_⟩)
    show padKey _ ≤ EventId.key curr.id
    rw [padKey_take]
    exact take_zeros_le _ _

end NostrPubsub.Reconcile
