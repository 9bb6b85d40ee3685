import NostrPubsub.Reconcile.BrowserCodec
import NostrPubsub.Reconcile.Session
import NostrPubsub.ToMathlib.Words

/-!
# The storage of the browser

`storage.ts` of `nostr-pubsub-reconcile`. It keeps the sums of the first ids in 32-bit words and takes
the sum of the ids in a range as the difference of two of them, with a borrow. This is the fingerprint
of the native storage (`Storage.Shows.fingerprint_eq`), and the binary search finds its cuts
(`Storage.Shows.lowerBound_eq`).
-/

namespace NostrPubsub.Reconcile.Browser

/-- The error of an access to what an array does not have. -/
def undefinedAccess : String := "TypeError"

/-! ## Words of an id -/

/-- `DataView.getUint32`, least significant byte first. -/
def getUint32 (bytes : List UInt8) (offset : ℕ) : ℕ :=
  Nat.ofDigits 256 ((bytes.extract offset (offset + 4)).map UInt8.toNat)

/-- The eight words of an id. -/
def wordsOf (id : List UInt8) : List ℕ := (List.range 8).map fun word => getUint32 id (word * 4)

theorem getUint32_add (bytes : List UInt8) (offset : ℕ) :
    getUint32 bytes (4 + offset) = getUint32 (bytes.drop 4) offset := by
  rw [getUint32, getUint32, List.extract_eq_take_drop, List.extract_eq_take_drop, List.drop_drop]
  congr 3
  omega

theorem ofDigits_words {count : ℕ} {bytes : List UInt8} (h : bytes.length = count * 4) :
    Nat.ofDigits (2 ^ 32) ((List.range count).map fun word => getUint32 bytes (word * 4)) =
      Nat.ofDigits 256 (bytes.map UInt8.toNat) := by
  induction count generalizing bytes with
  | zero =>
    rw [List.eq_nil_of_length_eq_zero (h.trans (Nat.zero_mul 4))]
    rfl
  | succ count ih =>
    have hrest := @ih (bytes.drop 4) (by rw [List.length_drop]; omega)
    have hwords : (List.range count).map (fun word => getUint32 bytes ((word + 1) * 4)) =
        (List.range count).map fun word => getUint32 (bytes.drop 4) (word * 4) := by
      refine List.map_congr_left fun word _ => ?_
      rw [← getUint32_add]
      congr 1
      omega
    have hfirst : (bytes.take 4).length = 4 := by
      rw [List.length_take]
      omega
    rw [List.range_succ_eq_map, List.map_cons, List.map_map, Nat.ofDigits_cons]
    calc getUint32 bytes (0 * 4) + 2 ^ 32 * Nat.ofDigits (2 ^ 32)
          ((List.range count).map fun word => getUint32 bytes ((word + 1) * 4))
        = Nat.ofDigits 256 ((bytes.take 4).map UInt8.toNat) +
            256 ^ ((bytes.take 4).map UInt8.toNat).length *
              Nat.ofDigits 256 ((bytes.drop 4).map UInt8.toNat) := by
          rw [hwords, hrest, List.length_map, hfirst, getUint32, List.extract_eq_take_drop]
          rfl
      _ = Nat.ofDigits 256 (bytes.map UInt8.toNat) := by
          rw [← Nat.ofDigits_append, ← List.map_append, List.take_append_drop]

theorem wordsOf_fits (id : List UInt8) : Words.Fits (2 ^ 32) 8 (wordsOf id) := by
  refine ⟨by rw [wordsOf, List.length_map, List.length_range], fun word hword => ?_⟩
  obtain ⟨i, -, rfl⟩ := List.mem_map.mp hword
  have hlt := Nat.ofDigits_lt_base_pow_length' (b := 254)
    (l := (id.extract (i * 4) (i * 4 + 4)).map UInt8.toNat) (by
      intro byte hbyte
      obtain ⟨other, -, rfl⟩ := List.mem_map.mp hbyte
      exact other.toNat_lt)
  refine hlt.trans_le ?_
  rw [List.length_map, List.extract_eq_take_drop, Nat.add_sub_cancel_left]
  exact (Nat.pow_le_pow_right (by decide) (List.length_take_le _ _)).trans (by decide)

theorem ofDigits_wordsOf (id : Id) : Nat.ofDigits (2 ^ 32) (wordsOf id.toList) = idNumber id :=
  ofDigits_words id.toList_length

/-- The low bytes of a number and the bytes of the rest of it. -/
theorem littleEndian_add (k width low high : ℕ) (h : low < 256 ^ k) :
    littleEndian (k + width) (low + 256 ^ k * high) =
      littleEndian k low ++ littleEndian width high := by
  induction k generalizing low with
  | zero =>
    rw [pow_zero, Nat.lt_one_iff] at h
    rw [h, pow_zero, Nat.one_mul, Nat.zero_add, Nat.zero_add]
    rfl
  | succ k ih =>
    have hrest : low / 256 < 256 ^ k := by
      rw [pow_succ] at h
      exact Nat.div_lt_of_lt_mul (by rwa [Nat.mul_comm])
    have hpow : 256 ^ (k + 1) * high = 256 * (256 ^ k * high) := by rw [pow_succ]; ring
    rw [Nat.succ_add, littleEndian, littleEndian, hpow, Nat.add_mul_mod_self_left,
      Nat.add_mul_div_left _ _ (by decide), ih _ hrest, List.cons_append]

/-- The bytes of words, four each. -/
theorem flatMap_littleEndian {width : ℕ} {words : List ℕ} (h : Words.Fits (2 ^ 32) width words) :
    words.flatMap (littleEndian 4) = littleEndian (width * 4) (Nat.ofDigits (2 ^ 32) words) := by
  induction words generalizing width with
  | nil =>
    obtain rfl : 0 = width := h.length_eq
    rfl
  | cons word words ih =>
    obtain rfl : words.length + 1 = width := h.length_eq
    obtain ⟨hword, hwords⟩ := Words.fits_cons.mp h
    have hwidth : (words.length + 1) * 4 = 4 + words.length * 4 := by omega
    rw [List.flatMap_cons, ih hwords, hwidth, Nat.ofDigits_cons]
    exact (littleEndian_add 4 _ _ _ hword).symm

/-! ## The storage -/

/-- `unique.set(id, record)`: a key that is there keeps its place. -/
def setRecord (unique : List Bound) (record : Bound) : List Bound :=
  if record.id ∈ unique.map Bound.id then
    unique.map fun other => if other.id = record.id then record else other
  else unique ++ [record]

/-- One record of the loop over the records. -/
def insertRecord (since until_ : ℤ) (maxRecords : ℕ) (unique : List Bound) (record : Bound) :
    Except String (List Bound) :=
  if (record.timestamp : ℤ) < since ∨ until_ < record.timestamp then .ok unique
  else if (unique.find? (·.id = record.id)).any (·.timestamp ≠ record.timestamp) then
    .error "conflicting timestamp"
  else
    let unique := setRecord unique record
    if maxRecords < unique.length then .error "reconciliation window exceeds record limit"
    else .ok unique

/-- `Storage`. The table `sums` has a row of eight words for each number of first records. -/
structure Storage where
  items : List Bound
  sums : List (List ℕ)

/-- The `constructor` of `Storage`. -/
def Storage.new (records : List Bound) (since until_ : ℤ) (maxRecords : ℕ) :
    Except String Storage := do
  let unique ← records.foldlM (insertRecord since until_ maxRecords) []
  let items := unique.insertionSort fun a b => compare a b ≤ 0
  return { items, sums := Words.sums (2 ^ 32) 8 (items.map fun item => wordsOf item.id) }

namespace Storage

variable (self : Storage)

/-- `items[i]`. -/
def item (i : ℕ) : Except String Bound :=
  match self.items[i]? with
  | some item => .ok item
  | none => .error undefinedAccess

/-- The row `i` of `sums`. -/
def row (i : ℕ) : Except String (List ℕ) :=
  match self.sums[i]? with
  | some row => .ok row
  | none => .error undefinedAccess

/-- `Storage.lowerBound`. -/
def lowerBound (first : ℕ) (bound : Bound) : ℕ :=
  List.lowerBoundLoop (fun item => compare item bound < 0) self.items self.items.length first
    self.items.length

/-- `Storage.fingerprint`. -/
def fingerprint (sha256 : List UInt8 → List.Vector UInt8 32) (begin_ end_ : ℕ) :
    Except String (List UInt8) := do
  let last ← self.row end_
  let first ← self.row begin_
  let sum := (Words.subBorrow (2 ^ 32) 0 last first).flatMap (littleEndian 4)
  let input ← Writer.varint { bytes := sum } ((end_ : ℤ) - begin_)
  return (sha256 input.bytes).toList.take 16

end Storage

/-! ## The storage shows a snapshot -/

/-- The browser's form of a record. -/
def Bound.ofItem (item : Item) : Bound := ⟨item.timestamp, item.id.toList⟩

theorem Bound.ofItem_eq (item : Item) : Bound.ofItem item = Bound.ofWire item.toBound := rfl

@[simp]
theorem Bound.place_ofItem (item : Item) : (Bound.ofItem item).place = item.position := by
  rw [Bound.ofItem_eq, Bound.place_ofWire, Item.position_toBound]

theorem cutAt_map {α β γ : Type*} [LinearOrder γ] (rank : β → γ) (f : α → β) (l : List α) (p : γ) :
    (l.map f).cutAt rank p = l.cutAt (fun a => rank (f a)) p := by
  rw [List.cutAt, List.cutAt, List.takeWhile_map, List.length_map]
  rfl

namespace Storage

/-- The storage holds the records of a snapshot. -/
structure Shows (storage : Storage) (snapshot : Snapshot) : Prop where
  items : storage.items = snapshot.items.map Bound.ofItem
  sums : storage.sums = Words.sums (2 ^ 32) 8 (storage.items.map fun item => wordsOf item.id)

variable {storage : Storage} {snapshot : Snapshot}

theorem Shows.length (h : storage.Shows snapshot) :
    storage.items.length = snapshot.items.length := by
  rw [h.items, List.length_map]

theorem Shows.item_eq (h : storage.Shows snapshot) {i : ℕ} (hi : i < snapshot.items.length) :
    storage.item i = .ok (Bound.ofItem (snapshot.items.getD i defaultItem)) := by
  rw [item, h.items, List.getElem?_map, List.getElem?_eq_getElem hi, List.getD_eq_getElem _ _ hi]
  rfl

/-- The search finds the cut from every index that is not behind it. -/
theorem Shows.lowerBound_eq (h : storage.Shows snapshot) {first : ℕ} {bound : Reconcile.Bound}
    (hfirst : first ≤ snapshot.cut bound.position) :
    storage.lowerBound first (Bound.ofWire bound) = snapshot.cut bound.position := by
  have hcut : storage.items.cutAt Bound.place bound.position = snapshot.cut bound.position := by
    rw [h.items, cutAt_map, Snapshot.cut]
    simp only [Bound.place_ofItem]
  have hsorted : storage.items.Pairwise fun a b => a.place < b.place := by
    rw [h.items]
    refine List.pairwise_map.mpr (snapshot.sorted.imp fun hlt => ?_)
    rwa [Bound.place_ofItem, Bound.place_ofItem]
  rw [lowerBound, ← hcut]
  refine List.lowerBoundLoop_eq hsorted (fun item _ => ?_) (Nat.sub_le _ _) ?_ ?_ le_rfl
  · rw [decide_eq_true_iff, compare_lt_zero, Bound.place_ofWire]
  · rwa [hcut]
  · exact List.cutAt_le_length _ _

theorem Shows.row_eq (h : storage.Shows snapshot) {i : ℕ} (hi : i ≤ snapshot.items.length) :
    ∃ _ : i < (Words.sums (2 ^ 32) 8
        (snapshot.items.map fun item => wordsOf item.id.toList)).length,
      storage.row i = .ok (Words.sums (2 ^ 32) 8
        (snapshot.items.map fun item => wordsOf item.id.toList))[i] := by
  have hrow : i < (Words.sums (2 ^ 32) 8
      (snapshot.items.map fun item => wordsOf item.id.toList)).length := by
    rw [Words.length_sums, List.length_map]
    omega
  have hwords : storage.items.map (fun item => wordsOf item.id) =
      snapshot.items.map fun item => wordsOf item.id.toList := by
    rw [h.items, List.map_map]
    rfl
  exact ⟨hrow, by rw [row, h.sums, hwords, List.getElem?_eq_getElem hrow]⟩

/-- The difference of two sums is the sum of the ids between them. -/
theorem Shows.fingerprint_eq (h : storage.Shows snapshot)
    (sha256 : List UInt8 → List.Vector UInt8 32) {begin_ end_ : ℕ} (hle : begin_ ≤ end_)
    (hend : end_ ≤ snapshot.items.length) (hlength : snapshot.items.length ≤ u64Max) :
    storage.fingerprint sha256 begin_ end_ =
      .ok (snapshot.fingerprint sha256 begin_ end_).toList := by
  obtain ⟨hlast, hlastRow⟩ := h.row_eq hend
  obtain ⟨hfirst, hfirstRow⟩ := h.row_eq (hle.trans hend)
  have hwords : ∀ words ∈ snapshot.items.map (fun item => wordsOf item.id.toList),
      Words.Fits (2 ^ 32) 8 words := by
    intro words hmem
    obtain ⟨item, -, rfl⟩ := List.mem_map.mp hmem
    exact wordsOf_fits _
  have hsum := Words.ofDigits_subBorrow_sums (by decide) hwords hle hfirst hlast
  have hfits := @Words.subBorrow_fits (2 ^ 32) 8 0 _ _ (by decide)
    (Words.getElem_sums (by decide) hwords hlast).1.length_eq
    (Words.getElem_sums (by decide) hwords hfirst).1.length_eq
  have hextract : ((snapshot.items.map fun item => wordsOf item.id.toList).extract begin_ end_).map
      (Nat.ofDigits (2 ^ 32)) =
        (snapshot.items.extract begin_ end_).map fun item => idNumber item.id := by
    rw [List.extract_eq_take_drop, List.extract_eq_take_drop, ← List.map_drop, ← List.map_take,
      List.map_map]
    exact List.map_congr_left fun item _ => ofDigits_wordsOf item.id
  have hcount : (snapshot.items.extract begin_ end_).length = end_ - begin_ := by
    rw [List.extract_eq_take_drop, List.length_take, List.length_drop]
    omega
  rw [hextract] at hsum
  have hdifference : (end_ : ℤ) - begin_ = ((end_ - begin_ : ℕ) : ℤ) := (Nat.cast_sub hle).symm
  have hwrite := fun sum : List UInt8 =>
    @Writer.varint_eq { bytes := sum } (end_ - begin_) (by omega)
  rw [fingerprint, hlastRow, hfirstRow, Except.ok_bind, Except.ok_bind, flatMap_littleEndian hfits,
    hsum, hdifference]
  simp only [hwrite, Except.ok_bind]
  rw [Snapshot.fingerprint, fingerprintOf, hcount]
  rfl

/-! ## Building the storage -/

/-- The records that are kept, in the order in which their ids came. -/
def keeps (unique : Unique) : List Bound := unique.items.map Bound.ofItem

theorem find_keeps (unique : Unique) (id : Id) :
    ((keeps unique).find? (·.id = id.toList)).map Bound.timestamp = unique.timestampOf id := by
  rw [keeps, List.find?_map, Option.map_map, Unique.timestampOf]
  have hpred : ((fun bound : Bound => decide (bound.id = id.toList)) ∘ Bound.ofItem) =
      fun item => decide (item.id = id) := by
    funext item
    exact decide_eq_decide.mpr List.Vector.toList_injective.eq_iff
  rw [hpred]
  rfl

/-- A record whose id has no other timestamp is set as the native side adds it. -/
theorem setRecord_keeps {unique : Unique} {item : Item}
    (h : (unique.timestampOf item.id).any (· ≠ item.timestamp) = false) :
    setRecord (keeps unique) (Bound.ofItem item) = keeps (unique.add item) := by
  have hmem : (Bound.ofItem item).id ∈ (keeps unique).map Bound.id ↔
      item.id ∈ unique.items.map Item.id := by
    rw [keeps, List.map_map, List.mem_map, List.mem_map]
    refine exists_congr fun other => and_congr_right fun _ => ?_
    exact List.Vector.toList_injective.eq_iff
  rw [setRecord, Unique.add]
  by_cases hknown : item.id ∈ unique.items.map Item.id
  · rw [if_pos (hmem.mpr hknown), dif_pos hknown, keeps, List.map_map]
    refine List.map_congr_left fun other hother => ?_
    rw [Function.comp_apply]
    split
    · next hsame =>
      -- the record under the id is the one that is set
      have hid : other.id = item.id := List.Vector.toList_injective hsame
      have hadded := (@Session.mem_add unique item item h).mpr (.inr rfl)
      rw [Unique.add, dif_pos hknown] at hadded
      have hinjective := List.inj_on_of_nodup_map unique.nodup hother hadded hid
      rw [hinjective]
    · rfl
  · rw [if_neg (mt hmem.mp hknown), dif_neg hknown, keeps, keeps, List.map_append]
    rfl

/-- A record of the window is kept iff the native side keeps it. -/
theorem insertRecord_keeps {filter : Filter} {limits : Limits}
    (hwindow : ¬ (filter.until_ < filter.since ∨ filter.until_ = u64Max)) (unique : Unique)
    (record : Record) :
    (insertRecord filter.since filter.until_ limits.maxRecords (keeps unique)
        ⟨record.timestamp, record.id.toList⟩).toOption =
      (Session.insertRecord limits hwindow unique record).toOption.map keeps := by
  have hcontains : ((record.timestamp : ℤ) < filter.since ∨ (filter.until_ : ℤ) < record.timestamp) ↔
      ¬ filter.contains record.timestamp = true := by
    rw [Filter.contains, decide_eq_true_iff]
    omega
  rw [insertRecord, Session.insertRecord]
  by_cases h : filter.contains record.timestamp = true
  · have hfind := find_keeps unique record.id
    have hconflict : (((keeps unique).find? (·.id = record.id.toList)).any
        (·.timestamp ≠ record.timestamp)) =
          (unique.timestampOf record.id).any (· ≠ record.timestamp) := by
      rw [← hfind, Option.any_map]
    rw [if_neg (mt hcontains.mp (not_not.mpr h)), dif_pos h]
    simp only [hconflict]
    split
    · rfl
    · next hsame =>
      have hset : setRecord (keeps unique) ⟨record.timestamp, record.id.toList⟩ =
          keeps (unique.add ⟨record.timestamp, record.id, Session.timestamp_lt hwindow h⟩) :=
        @setRecord_keeps unique ⟨record.timestamp, record.id, Session.timestamp_lt hwindow h⟩
          (Bool.eq_false_of_not_eq_true hsame)
      have hlength : ∀ unique, (keeps unique).length = unique.items.length :=
        fun _ => List.length_map _
      simp only [hset, hlength]
      split <;> rfl
  · rw [if_pos (hcontains.mpr h), dif_neg h]
    rfl

theorem foldlM_insertRecord_keeps {filter : Filter} {limits : Limits}
    (hwindow : ¬ (filter.until_ < filter.since ∨ filter.until_ = u64Max)) (unique : Unique)
    (records : List Record) :
    ((records.map fun record => (⟨record.timestamp, record.id.toList⟩ : Bound)).foldlM
        (insertRecord filter.since filter.until_ limits.maxRecords) (keeps unique)).toOption =
      (records.foldlM (Session.insertRecord limits hwindow) unique).toOption.map keeps := by
  induction records generalizing unique with
  | nil => rfl
  | cons record records ih =>
    have hstep := @insertRecord_keeps filter limits hwindow unique record
    rw [List.map_cons, List.foldlM_cons, List.foldlM_cons]
    cases hnative : Session.insertRecord limits hwindow unique record with
    | error error =>
      rw [hnative] at hstep
      cases hbrowser : insertRecord filter.since filter.until_ limits.maxRecords (keeps unique)
          ⟨record.timestamp, record.id.toList⟩ with
      | error error' => rfl
      | ok unique' =>
        rw [hbrowser] at hstep
        cases hstep
    | ok unique' =>
      rw [hnative] at hstep
      rw [Except.toOption_eq_some.mp hstep]
      exact ih unique'

/-- The records kept, sorted by `compare`, are those of the sealed snapshot. -/
theorem insertionSort_keeps (unique : Unique) :
    ((keeps unique).insertionSort fun a b => compare a b ≤ 0) =
      (Snapshot.seal unique.items unique.nodup).items.map Bound.ofItem := by
  have hsorted : ∀ a b : Item, a.position < b.position →
      (Bound.ofItem a).place < (Bound.ofItem b).place := by
    intro a b hlt
    rwa [Bound.place_ofItem, Bound.place_ofItem]
  have htotal : Std.Total fun a b : Bound => compare a b ≤ 0 :=
    ⟨fun a b => by rw [compare_le_zero, compare_le_zero]; exact le_total _ _⟩
  have htrans : IsTrans Bound fun a b => compare a b ≤ 0 :=
    ⟨fun a b c => by simp only [compare_le_zero]; exact le_trans⟩
  have hperm : ((keeps unique).insertionSort fun a b => compare a b ≤ 0).Perm (keeps unique) :=
    List.perm_insertionSort _ _
  have hnodup : ((keeps unique).map Bound.place).Nodup := by
    have hitems : unique.items.Nodup := unique.nodup.of_map
    have hplaces : (keeps unique).map Bound.place = unique.items.map Item.position := by
      rw [keeps, List.map_map]
      exact List.map_congr_left fun item _ => Bound.place_ofItem item
    rw [hplaces]
    exact hitems.map Item.position_injective
  have hne : ((keeps unique).insertionSort fun a b => compare a b ≤ 0).Pairwise
      fun a b => a.place ≠ b.place :=
    List.pairwise_map.mp ((hperm.map Bound.place).nodup_iff.mpr hnodup)
  refine @IsLeading.eq_of_sorted _ _ _ Bound.place _ _ ?_ ?_ fun bound => ?_
  · refine (List.pairwise_insertionSort _ _).imp₂ (fun a b hle hab => ?_) hne
    exact lt_of_le_of_ne ((compare_le_zero a b).mp hle) hab
  · exact List.pairwise_map.mpr ((Snapshot.seal _ unique.nodup).sorted.imp fun h => hsorted _ _ h)
  · rw [List.mem_insertionSort, keeps]
    exact (((perm_sortByRank Item.position unique.items).map Bound.ofItem).mem_iff).symm

/-- The browser stores what the native side seals. -/
theorem new_shows {filter : Filter} {limits : Limits}
    (hwindow : ¬ (filter.until_ < filter.since ∨ filter.until_ = u64Max)) {records : List Record}
    {storage : Storage}
    (h : Storage.new (records.map fun record => ⟨record.timestamp, record.id.toList⟩) filter.since
      filter.until_ limits.maxRecords = .ok storage) :
    ∃ unique, records.foldlM (Session.insertRecord limits hwindow) Unique.empty = .ok unique ∧
      storage.Shows (Snapshot.seal unique.items unique.nodup) := by
  obtain ⟨kept, hkept, h⟩ := Except.bind_eq_ok.mp h
  cases h
  have hfold := @foldlM_insertRecord_keeps filter limits hwindow Unique.empty records
  rw [show keeps Unique.empty = [] from rfl, hkept] at hfold
  obtain ⟨unique, hunique, rfl⟩ := Option.map_eq_some_iff.mp hfold.symm
  exact ⟨unique, Except.toOption_eq_some.mp hunique, insertionSort_keeps unique, rfl⟩

end Storage

end NostrPubsub.Reconcile.Browser
