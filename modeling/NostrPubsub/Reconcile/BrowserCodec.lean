import NostrPubsub.Reconcile.Truth

/-!
# Frames in the browser

`encoding.ts` and `validation.ts` of `nostr-pubsub-reconcile`. The browser counts with `BigInt`, which
does not overflow, so every number is compared with `INFINITY` where it is read or written. A frame
passes `validateFrame` iff it passes the validator of the native side (`validateFrame_iff`), and ranges
whose timestamps do not decrease are written as there (`Writer.bound_eq`).
-/

namespace NostrPubsub.Reconcile.Browser

/-- `Bound`. A record of the storage is one as well. -/
@[ext]
structure Bound where
  timestamp : ℕ
  id : List UInt8
  deriving DecidableEq

/-- `infinity`. -/
def Bound.infinity : Bound := ⟨u64Max, []⟩

/-- `previous`, before the first range. -/
def Bound.zero : Bound := ⟨0, []⟩

/-- `a[i] ?? 0`. -/
def byteAt (bytes : List UInt8) (i : ℕ) : ℕ := (bytes.getD i 0).toNat

/-- `compareIds`: the first difference among 32 bytes. -/
def compareIds (a b : List UInt8) : ℤ :=
  (((List.range 32).map fun i => (byteAt a i : ℤ) - byteAt b i).find? (· ≠ 0)).getD 0

/-- `compare`. -/
def compare (a b : Bound) : ℤ :=
  if a.timestamp < b.timestamp then -1
  else if b.timestamp < a.timestamp then 1
  else compareIds a.id b.id

/-! ## Reading -/

/-- `Reader`, with the bytes after its offset. -/
structure Reader where
  bytes : List UInt8
  timestamp : ℕ := 0

namespace Reader

variable (self : Reader)

/-- `Reader.take`. -/
def take (n : ℕ) : Except String (List UInt8 × Reader) := do
  let (result, bytes) ← takeBytes "truncated frame" n self.bytes
  return (result, { self with bytes })

/-- `Reader.varint`. -/
def varint : Except String (ℕ × Reader) := do
  let (value, bytes) ← VarInt.read ⟨"truncated frame", "varint overflow", "varint too long"⟩ u64Max
    10 0 self.bytes
  return (value, { self with bytes })

/-- `Reader.bound`. -/
def bound : Except String (Bound × Reader) := do
  let (delta, self) ← self.varint
  let timestamp :=
    if delta = 0 ∨ self.timestamp = u64Max then u64Max else self.timestamp + delta - 1
  if u64Max < timestamp then .error "timestamp overflow"
  else
    let (length, self) ← Reader.varint { self with timestamp }
    if 32 < length then .error "invalid bound"
    else
      let (id, self) ← self.take length
      return (⟨timestamp, id⟩, self)

end Reader

/-- What the loop in `validateFrame` reads after a bound. -/
def validateItems (reader : Reader) : Except String Reader := do
  let (mode, reader) ← reader.varint
  match mode with
  | 0 => return reader
  | 1 =>
    let (_fingerprint, reader) ← reader.take 16
    return reader
  | 2 =>
    let (count, reader) ← reader.varint
    if reader.bytes.length / 32 < count then .error "truncated ID list"
    else
      let (_ids, reader) ← reader.take (count * 32)
      return reader
  | _ => .error "invalid reconciliation mode"

/-- `while (reader.remaining)`. Every turn takes a byte, so the bytes at hand bound them. -/
def validateRanges : ℕ → (previous : Bound) → Reader → Except String Unit
  | 0, _, _ => .ok ()
  | fuel + 1, previous, reader =>
    if reader.bytes = [] then .ok ()
    else do
      let (bound, reader) ← reader.bound
      if compare bound previous < 0 then .error "unordered ranges"
      else
        let reader ← validateItems reader
        validateRanges fuel bound reader

/-- `validateFrame`. -/
def validateFrame (bytes : List UInt8) : Except String Unit := do
  let (version, reader) ← Reader.take { bytes } 1
  if version ≠ [0x61] then .error "unsupported Negentropy version"
  else validateRanges reader.bytes.length Bound.zero reader

/-! ## Writing -/

/-- `Writer`. -/
structure Writer where
  bytes : List UInt8 := []
  timestamp : ℕ := 0

/-- `while ((value >>= 7n) > 0n)`. A value of 64 bits has ten digits at most. -/
def digits : ℕ → ℕ → List UInt8
  | 0, _ => []
  | fuel + 1, value =>
    if 0 < value / 128 then (UInt8.ofNat (value / 128 % 128) ||| 128) :: digits fuel (value / 128)
    else []

namespace Writer

variable (self : Writer)

/-- `Writer.append`. -/
def append (bytes : List UInt8) : Writer := { self with bytes := self.bytes ++ bytes }

/-- `Writer.varint`. -/
def varint (value : ℤ) : Except String Writer :=
  if value < 0 ∨ (u64Max : ℤ) < value then .error "invalid varint"
  else .ok (self.append (UInt8.ofNat (value.toNat % 128) :: digits 10 value.toNat).reverse)

/-- `Writer.bound`. -/
def bound (bound : Bound) : Except String Writer := do
  let self ← self.varint
    (if bound.timestamp = u64Max then 0 else (bound.timestamp : ℤ) - self.timestamp + 1)
  let self ← Writer.varint { self with timestamp := bound.timestamp } bound.id.length
  return self.append bound.id

end Writer

/-! ## The order of bounds -/

/-- The browser's form of a bound of the wire. -/
def Bound.ofWire (bound : Reconcile.Bound) : Bound := ⟨bound.timestamp, bound.id⟩

/-- The first difference of two lists of one length decides their order. -/
theorem find_difference {xs ys : List ℕ} (h : xs.length = ys.length) :
    (((List.zipWith (fun x y : ℕ => (x : ℤ) - y) xs ys).find? (· ≠ 0)).getD 0 < 0 ↔ xs < ys) ∧
      (((List.zipWith (fun x y : ℕ => (x : ℤ) - y) xs ys).find? (· ≠ 0)).getD 0 = 0 ↔ xs = ys) := by
  induction xs generalizing ys with
  | nil =>
    obtain rfl : ys = [] := List.eq_nil_of_length_eq_zero h.symm
    simp
  | cons x xs ih =>
    cases ys with
    | nil => exact absurd h (Nat.succ_ne_zero _)
    | cons y ys =>
      obtain ⟨hlt, heq⟩ := ih (Nat.succ_injective h)
      rw [List.zipWith_cons_cons, List.cons_lt_cons_iff, List.cons_eq_cons]
      by_cases hxy : x = y
      · subst hxy
        rw [List.find?_cons_of_neg (by simp), hlt, heq]
        simp
      · have hne : (x : ℤ) - y ≠ 0 := fun hzero => hxy (by omega)
        rw [List.find?_cons_of_pos (by simpa using hne), Option.getD_some]
        refine ⟨⟨fun hneg => .inl (by omega), ?_⟩, ⟨fun hzero => absurd hzero hne, ?_⟩⟩
        · rintro (hless | ⟨hsame, -⟩)
          · omega
          · exact absurd hsame hxy
        · rintro ⟨hsame, -⟩
          exact absurd hsame hxy

/-- The bytes that `compareIds` looks at. -/
def firstBytes (id : List UInt8) : List ℕ := (List.range 32).map (byteAt id)

/-- The place of a bound in the order of `compare`. -/
def Bound.place (bound : Bound) : ℕ ×ₗ List ℕ := toLex (bound.timestamp, firstBytes bound.id)

theorem firstBytes_eq {id : List UInt8} (h : id.length ≤ 32) : firstBytes id = padKey id := by
  apply List.ext_getElem
  · rw [firstBytes, padKey, List.length_map, List.length_range, List.length_append, List.length_map,
      List.length_replicate, idSize]
    omega
  · intro i _ _
    simp only [firstBytes, padKey, List.getElem_map, List.getElem_range]
    rw [byteAt, List.getD_eq_getElem?_getD, List.getElem_append]
    split
    · next hlt =>
      rw [List.length_map] at hlt
      rw [List.getElem_map, List.getElem?_eq_getElem hlt, Option.getD_some]
    · next hge =>
      rw [List.length_map, not_lt] at hge
      rw [List.getElem_replicate, List.getElem?_eq_none hge]
      rfl

@[simp]
theorem Bound.place_ofWire (bound : Reconcile.Bound) : (Bound.ofWire bound).place = bound.position := by
  rw [Bound.place, Reconcile.Bound.position]
  exact congrArg (fun key => toLex (bound.timestamp, key)) (firstBytes_eq bound.length_le)

theorem compareIds_eq (a b : List UInt8) :
    (compareIds a b < 0 ↔ firstBytes a < firstBytes b) ∧
      (compareIds a b = 0 ↔ firstBytes a = firstBytes b) := by
  have hbytes : (List.range 32).map (fun i => (byteAt a i : ℤ) - byteAt b i) =
      List.zipWith (fun x y : ℕ => (x : ℤ) - y) (firstBytes a) (firstBytes b) := by
    rw [firstBytes, firstBytes, List.zipWith_map, List.zipWith_self]
  rw [compareIds, hbytes]
  exact find_difference (by rw [firstBytes, firstBytes, List.length_map, List.length_map])

/-- Equally many bytes compare as equal iff they are. -/
theorem compareIds_eq_zero {a b : List UInt8} (hlength : a.length = b.length) (hb : b.length ≤ 32) :
    compareIds a b = 0 ↔ a = b := by
  rw [(compareIds_eq a b).2, firstBytes_eq (hlength.trans_le hb), firstBytes_eq hb, padKey, padKey,
    hlength]
  refine ⟨fun h => ?_, fun h => by rw [h]⟩
  exact List.map_injective_iff.mpr (fun _ _ => UInt8.toNat_inj.mp) (List.append_cancel_right h)

theorem compare_lt_zero (a b : Bound) : compare a b < 0 ↔ a.place < b.place := by
  rw [compare, Bound.place, Bound.place, Prod.Lex.lt_iff]
  split
  · next hlt => simp [hlt]
  · next hge =>
    split
    · next hgt => simp [hge, hgt.ne']
    · next hle =>
      have heq : a.timestamp = b.timestamp := le_antisymm (not_lt.mp hle) (not_lt.mp hge)
      rw [(compareIds_eq _ _).1]
      simp [heq]

theorem compare_eq_zero (a b : Bound) : compare a b = 0 ↔ a.place = b.place := by
  rw [compare, Bound.place, Bound.place, toLex_inj, Prod.mk.injEq]
  split
  · next hlt => simp [hlt.ne]
  · next hge =>
    split
    · next hgt => simp [hgt.ne']
    · next hle =>
      have heq : a.timestamp = b.timestamp := le_antisymm (not_lt.mp hle) (not_lt.mp hge)
      rw [(compareIds_eq _ _).2]
      simp [heq]

theorem compare_le_zero (a b : Bound) : compare a b ≤ 0 ↔ a.place ≤ b.place := by
  rw [le_iff_lt_or_eq, le_iff_lt_or_eq, compare_lt_zero, compare_eq_zero]

theorem compare_ofWire (a b : Reconcile.Bound) :
    compare (Bound.ofWire a) (Bound.ofWire b) < 0 ↔ a.position < b.position := by
  rw [compare_lt_zero, Bound.place_ofWire, Bound.place_ofWire]

/-! ## The readers read the wire -/

namespace Reader

variable {self next : Reader}

theorem take_eq_ok {n : ℕ} {r : List UInt8 × Reader} : self.take n = .ok r ↔
    n ≤ self.bytes.length ∧
      r = (self.bytes.take n, { self with bytes := self.bytes.drop n }) := by
  rw [take, Except.bind_eq_ok]
  constructor
  · rintro ⟨taken, htaken, h⟩
    obtain ⟨hle, rfl⟩ := takeBytes_eq_ok.mp htaken
    cases h
    exact ⟨hle, rfl⟩
  · rintro ⟨hle, rfl⟩
    exact ⟨_, takeBytes_eq_ok.mpr ⟨hle, rfl⟩, rfl⟩

theorem varint_eq_ok {value : ℕ} : self.varint = .ok (value, next) ↔
    readVarInt self.bytes = some (value, next.bytes) ∧ next.timestamp = self.timestamp := by
  rw [varint, Except.bind_eq_ok]
  constructor
  · rintro ⟨⟨read, bytes⟩, hread, h⟩
    cases h
    exact ⟨read_eq_ok_iff.mp hread, rfl⟩
  · rintro ⟨hread, htimestamp⟩
    refine ⟨(value, next.bytes), read_eq_ok_iff.mpr hread, ?_⟩
    rw [← htimestamp]
    rfl

theorem timestampAfter_eq {last delta : ℕ} :
    (if delta = 0 ∨ last = u64Max then u64Max else last + delta - 1) = timestampAfter last delta := by
  rw [timestampAfter]
  split
  · rfl
  · omega

theorem bound_eq_ok {bound : Bound} : self.bound = .ok (bound, next) ↔
    ∃ wire : Reconcile.Bound, readBound self.timestamp self.bytes = some (wire, next.bytes) ∧
      next.timestamp = wire.timestamp ∧ bound = Bound.ofWire wire := by
  rw [Reader.bound]
  -- The engine reads a difference of timestamps, the length of an id prefix and the prefix, and
  -- checks both against their maxima.
  constructor
  · intro h
    obtain ⟨⟨delta, afterDelta⟩, hdelta, h⟩ := Except.bind_eq_ok.mp h
    obtain ⟨hdelta, hlast⟩ := varint_eq_ok.mp hdelta
    simp only [timestampAfter_eq, hlast] at h
    split at h
    · cases h
    next htimestamp =>
    obtain ⟨⟨length, afterLength⟩, hlength, h⟩ := Except.bind_eq_ok.mp h
    obtain ⟨hlength, hsame⟩ := varint_eq_ok.mp hlength
    simp only at h
    split at h
    · cases h
    next hsmall =>
    obtain ⟨⟨id, afterId⟩, hid, h⟩ := Except.bind_eq_ok.mp h
    cases h
    obtain ⟨hle, heq⟩ := take_eq_ok.mp hid
    cases heq
    have hidLength : (afterLength.bytes.take length).length ≤ idSize :=
      (List.length_take_le _ _).trans (not_lt.mp hsmall)
    refine ⟨⟨_, _, not_lt.mp htimestamp, hidLength⟩, ?_, hsame, rfl⟩
    exact readBound_eq_some.mpr ⟨delta, _, length, _, hdelta, hlength, hle, rfl, rfl, rfl⟩
  · rintro ⟨wire, hread, hnext, rfl⟩
    obtain ⟨rest, last⟩ := next
    obtain rfl : last = wire.timestamp := hnext
    obtain ⟨delta, afterDelta, length, afterLength, hdelta, hlength, hle, htimestamp, hid, hrest⟩ :=
      readBound_eq_some.mp hread
    obtain rfl : rest = afterLength.drop length := hrest
    have hsmall : length ≤ 32 := by
      have hidLength := wire.length_le
      rwa [hid, List.length_take, Nat.min_eq_left hle] at hidLength
    refine Except.bind_eq_ok.mpr
      ⟨(delta, ⟨afterDelta, self.timestamp⟩), varint_eq_ok.mpr ⟨hdelta, rfl⟩, ?_⟩
    simp only [timestampAfter_eq, ← htimestamp, if_neg (not_lt.mpr wire.timestamp_le)]
    refine Except.bind_eq_ok.mpr
      ⟨(length, ⟨afterLength, wire.timestamp⟩), varint_eq_ok.mpr ⟨hlength, rfl⟩, ?_⟩
    simp only [if_neg (not_lt.mpr hsmall)]
    refine Except.bind_eq_ok.mpr ⟨_, take_eq_ok.mpr ⟨hle, rfl⟩, ?_⟩
    simp only [← hid]
    rfl

end Reader

theorem validateItems_eq_ok {reader next : Reader} : validateItems reader = .ok next ↔
    ∃ payload, readPayload reader.bytes = some (payload, next.bytes) ∧
      next.timestamp = reader.timestamp := by
  rw [validateItems]
  constructor
  · -- each mode that the check reads is one that `readPayload` reads, with the same rest
    intro h
    obtain ⟨⟨mode, afterMode⟩, hmode, h⟩ := Except.bind_eq_ok.mp h
    obtain ⟨hmode, hlast⟩ := Reader.varint_eq_ok.mp hmode
    simp only at h
    split at h
    · cases h
      exact ⟨.skip, readPayload_eq_some.mpr ⟨0, _, hmode, .inl ⟨rfl, rfl, rfl⟩⟩, hlast⟩
    · obtain ⟨⟨taken, afterTaken⟩, htaken, h⟩ := Except.bind_eq_ok.mp h
      cases h
      obtain ⟨hle, heq⟩ := Reader.take_eq_ok.mp htaken
      cases heq
      have hvector : readVector 16 afterMode.bytes = some
          ((⟨afterMode.bytes.take 16, List.length_take_of_le hle⟩ : Fingerprint),
            afterMode.bytes.drop 16) :=
        readVector_eq_some.mpr ⟨hle, rfl, rfl⟩
      exact ⟨_, readPayload_eq_some.mpr ⟨1, _, hmode, .inr (.inl ⟨_, rfl, rfl, hvector⟩)⟩, hlast⟩
    · obtain ⟨⟨count, afterCount⟩, hcount, h⟩ := Except.bind_eq_ok.mp h
      obtain ⟨hcount, hsame⟩ := Reader.varint_eq_ok.mp hcount
      simp only at h
      split at h
      · cases h
      next henough =>
      obtain ⟨⟨taken, afterTaken⟩, htaken, h⟩ := Except.bind_eq_ok.mp h
      cases h
      obtain ⟨hle, heq⟩ := Reader.take_eq_ok.mp htaken
      cases heq
      obtain ⟨⟨ids, rest⟩, hids⟩ := Validation.exists_readIds hle
      obtain ⟨rfl, -⟩ := Validation.chunks_of_readIds hids
      exact ⟨_, readPayload_eq_some.mpr ⟨2, _, hmode, .inr (.inr ⟨ids, count, _, rfl, rfl, hcount,
        hids⟩)⟩, hsame.trans hlast⟩
    · cases h
  · -- conversely, the three payloads are read under the modes 0, 1 and 2
    rintro ⟨payload, hread, hlast⟩
    obtain ⟨mode, afterMode, hmode, hcase⟩ := readPayload_eq_some.mp hread
    refine Except.bind_eq_ok.mpr
      ⟨(mode, ⟨afterMode, reader.timestamp⟩), Reader.varint_eq_ok.mpr ⟨hmode, rfl⟩, ?_⟩
    rcases hcase with ⟨rfl, rfl, hrest⟩ | ⟨fingerprint, rfl, rfl, hvector⟩ |
      ⟨ids, count, afterCount, rfl, rfl, hcount, hids⟩
    · rw [← hlast, ← hrest]
      rfl
    · obtain ⟨hle, -, hrest⟩ := readVector_eq_some.mp hvector
      refine Except.bind_eq_ok.mpr ⟨_, Reader.take_eq_ok.mpr ⟨hle, rfl⟩, ?_⟩
      simp only [← hrest, ← hlast]
      rfl
    · have hsize := (length_of_readIds hids).2
      have hle : count * 32 ≤ afterCount.length := by
        rw [idSize] at hsize
        omega
      have henough : ¬ afterCount.length / 32 < count := by omega
      obtain ⟨hrest, -⟩ := Validation.chunks_of_readIds hids
      refine Except.bind_eq_ok.mpr
        ⟨(count, ⟨afterCount, reader.timestamp⟩), Reader.varint_eq_ok.mpr ⟨hcount, rfl⟩, ?_⟩
      simp only [if_neg henough]
      refine Except.bind_eq_ok.mpr ⟨_, Reader.take_eq_ok.mpr ⟨hle, rfl⟩, ?_⟩
      simp only [← hrest, ← hlast]
      rfl

theorem validateRanges_eq_ok {fuel : ℕ} {previous : Reconcile.Bound} {reader : Reader}
    (hfuel : reader.bytes.length ≤ fuel) :
    validateRanges fuel (Bound.ofWire previous) reader = .ok () ↔
      ∃ ranges, Parses reader.timestamp reader.bytes ranges ∧ Ordered previous.position ranges := by
  -- Each range takes at least one byte, so as much fuel as there are bytes is enough.
  induction fuel generalizing previous reader with
  | zero =>
    have hnil := List.eq_nil_of_length_eq_zero (Nat.le_zero.mp hfuel)
    rw [hnil]
    exact ⟨fun _ => ⟨[], .nil _, trivial⟩, fun _ => rfl⟩
  | succ fuel ih =>
    rw [validateRanges]
    split
    · next hnil =>
      rw [hnil]
      exact ⟨fun _ => ⟨[], .nil _, trivial⟩, fun _ => rfl⟩
    next hne =>
    constructor
    · intro h
      obtain ⟨⟨bound, afterBound⟩, hbound, h⟩ := Except.bind_eq_ok.mp h
      obtain ⟨wire, hread, hlast, rfl⟩ := Reader.bound_eq_ok.mp hbound
      simp only [compare_ofWire] at h
      split at h
      · cases h
      next hordered =>
      obtain ⟨rest, hitems, h⟩ := Except.bind_eq_ok.mp h
      obtain ⟨payload, hpayload, hsame⟩ := validateItems_eq_ok.mp hitems
      have hrange : readRange reader.timestamp reader.bytes = some (⟨wire, payload⟩, rest.bytes) :=
        readRange_eq_some.mpr ⟨_, hread, hpayload⟩
      have hshorter := length_readRange_lt hrange
      obtain ⟨ranges, hparses, hrest⟩ := (ih (by omega)).mp h
      rw [hsame, hlast] at hparses
      exact ⟨_, .cons hrange hparses, not_lt.mp hordered, hrest⟩
    · rintro ⟨ranges, hparses, hordered⟩
      obtain ⟨last, hlast⟩ : ∃ last, reader.timestamp = last := ⟨_, rfl⟩
      obtain ⟨bytes, hbytes⟩ : ∃ bytes, reader.bytes = bytes := ⟨_, rfl⟩
      rw [hlast, hbytes] at hparses
      cases hparses with
      | nil => exact absurd hbytes hne
      | @cons _ _ rest range ranges hread htail =>
        obtain ⟨hle, hrest⟩ := ordered_cons.mp hordered
        obtain ⟨afterBound, hbound, hpayload⟩ := readRange_eq_some.mp hread
        have hshorter := length_readRange_lt hread
        rw [← hlast, ← hbytes] at hbound
        refine Except.bind_eq_ok.mpr ⟨(Bound.ofWire range.bound, ⟨afterBound, range.bound.timestamp⟩),
          Reader.bound_eq_ok.mpr ⟨_, hbound, rfl, rfl⟩, ?_⟩
        simp only [compare_ofWire, if_neg (not_lt.mpr hle)]
        refine Except.bind_eq_ok.mpr ⟨⟨rest, range.bound.timestamp⟩,
          validateItems_eq_ok.mpr ⟨_, hpayload, rfl⟩, (ih ?_).mpr ⟨ranges, htail, hrest⟩⟩
        rw [hbytes] at hfuel
        show rest.length ≤ fuel
        omega

/-- A frame is accepted iff it consists of ranges in order. -/
theorem validateFrame_eq_ok {bytes : List UInt8} : validateFrame bytes = .ok () ↔
    ∃ ranges, Spells bytes ranges ∧ Ordered Reconcile.Bound.zero.position ranges := by
  have hzero : Bound.zero = Bound.ofWire Reconcile.Bound.zero := rfl
  rw [validateFrame, hzero]
  constructor
  · intro h
    obtain ⟨⟨version, reader⟩, htake, h⟩ := Except.bind_eq_ok.mp h
    obtain ⟨-, heq⟩ := Reader.take_eq_ok.mp htake
    cases heq
    simp only at h
    split at h
    · cases h
    next hversion =>
    obtain ⟨ranges, hparses, hordered⟩ :=
      (@validateRanges_eq_ok _ Reconcile.Bound.zero ⟨bytes.drop 1, 0⟩ le_rfl).mp h
    refine ⟨ranges, ⟨bytes.drop 1, ?_, hparses⟩, hordered⟩
    rw [← List.take_append_drop 1 bytes, not_not.mp hversion]
    rfl
  · rintro ⟨ranges, ⟨body, rfl, hparses⟩, hordered⟩
    refine Except.bind_eq_ok.mpr ⟨([protocolVersion], ⟨body, 0⟩), ?_, ?_⟩
    · exact Reader.take_eq_ok.mpr ⟨Nat.succ_le_succ (Nat.zero_le _), rfl⟩
    · exact (validateRanges_eq_ok le_rfl).mpr ⟨ranges, hparses, hordered⟩

/-- The browser accepts the frames that the native side accepts. -/
theorem validateFrame_iff {bytes : List UInt8} (h : bytes.length ≤ u64Max) :
    validateFrame bytes = .ok () ↔ Validation.validate bytes = .ok () := by
  rw [validateFrame_eq_ok]
  constructor
  · rintro ⟨ranges, hspells, hordered⟩
    exact hspells.validate hordered h
  · exact exists_spells

/-! ## The writer writes the wire -/

theorem reverse_digits {fuel value : ℕ} (h : value / 128 < 128 ^ fuel) :
    (digits fuel value).reverse = VarInt.leading (value / 128) := by
  induction fuel generalizing value with
  | zero =>
    rw [pow_zero, Nat.lt_one_iff] at h
    rw [h, VarInt.leading_zero]
    rfl
  | succ fuel ih =>
    rw [digits]
    split
    · next hpos =>
      have hrest : value / 128 / 128 < 128 ^ fuel := by
        rw [Nat.pow_succ] at h
        exact Nat.div_lt_of_lt_mul (by rwa [Nat.mul_comm])
      rw [List.reverse_cons, ih hrest, VarInt.ofNat_or_high (Nat.mod_lt _ (by decide)),
        ← VarInt.leading_of_pos hpos]
    · next hzero =>
      rw [Nat.eq_zero_of_not_pos hzero, VarInt.leading_zero]
      rfl

namespace Writer

theorem varint_eq (self : Writer) {value : ℕ} (h : value ≤ u64Max) :
    self.varint value = .ok { self with bytes := self.bytes ++ encodeVarInt value } := by
  have hdigits : value / 128 < 128 ^ 10 := by
    have hmax : u64Max / 128 < 128 ^ 10 := by decide
    exact (Nat.div_le_div_right h).trans_lt hmax
  rw [varint, if_neg (by omega), Int.toNat_natCast, List.reverse_cons, reverse_digits hdigits,
    encodeVarInt_eq]
  rfl

/-- A bound that does not go back in time. -/
theorem bound_eq (self : Writer) {bound : Reconcile.Bound} (h : self.timestamp ≤ bound.timestamp) :
    self.bound (Bound.ofWire bound) =
      .ok ⟨self.bytes ++ encodeBound self.timestamp bound, bound.timestamp⟩ := by
  have hlength : bound.id.length ≤ u64Max := bound.length_le.trans (by decide)
  obtain ⟨delta, hdelta, hle, hwrite⟩ : ∃ delta : ℕ,
      (if bound.timestamp = u64Max then 0 else (bound.timestamp : ℤ) - self.timestamp + 1) = delta ∧
        delta ≤ u64Max ∧ encodeVarInt delta = encodeTimestamp self.timestamp bound.timestamp := by
    rw [encodeTimestamp]
    split
    · exact ⟨0, rfl, Nat.zero_le _, rfl⟩
    · next hmax =>
      have hlt := bound.timestamp_le.lt_of_ne hmax
      refine ⟨bound.timestamp - self.timestamp + 1, by omega, by omega, ?_⟩
      rw [satAdd, Nat.min_eq_left (by omega)]
  have htimestamp : (Bound.ofWire bound).timestamp = bound.timestamp := rfl
  have hid : (Bound.ofWire bound).id = bound.id := rfl
  rw [Writer.bound, htimestamp, hdelta, varint_eq _ hle, Except.ok_bind, hid, varint_eq _ hlength,
    Except.ok_bind, hwrite, encodeBound, append]
  simp only [List.append_assoc]
  rfl

end Writer

end NostrPubsub.Reconcile.Browser
