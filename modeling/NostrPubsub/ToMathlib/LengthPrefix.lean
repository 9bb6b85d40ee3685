import Mathlib.Data.List.Basic
import Mathlib.Data.Nat.Digits.Defs

/-!
# Length-prefixed records in a byte stream

A record travels as a big-endian length of `width` bytes and that many bytes of payload. A
reader sees the stream in pieces that respect no record boundary, and refuses a declared
length over its limit.

`front` reads the first record of an input, `records` all the records before the input ends
or goes wrong. What `front` says about an input it says about every continuation of it
(`front_append_of_record`, `front_append_of_tooLong`), so the records of a stream do not
depend on how it is cut.
-/

namespace LengthPrefix

/-! ## Lengths -/

/-- The number that big-endian bytes spell. -/
def ofBigEndian (bytes : List UInt8) : ℕ :=
  bytes.foldl (fun n byte => n * 256 + byte.toNat) 0

/-- The low `width` bytes of a number, most significant first. -/
def toBigEndian : ℕ → ℕ → List UInt8
  | 0, _ => []
  | width + 1, n => toBigEndian width (n / 256) ++ [UInt8.ofNat (n % 256)]

@[simp]
theorem length_toBigEndian (width n : ℕ) : (toBigEndian width n).length = width := by
  induction width generalizing n with
  | zero => rfl
  | succ width ih => simp [toBigEndian, ih]

theorem ofBigEndian_concat (bytes : List UInt8) (byte : UInt8) :
    ofBigEndian (bytes ++ [byte]) = ofBigEndian bytes * 256 + byte.toNat := by
  simp [ofBigEndian, List.foldl_append]

/-- A number that fits its width is read back. -/
theorem ofBigEndian_toBigEndian {width n : ℕ} (h : n < 256 ^ width) :
    ofBigEndian (toBigEndian width n) = n := by
  induction width generalizing n with
  | zero =>
    have hn : n = 0 := by omega
    simp [toBigEndian, ofBigEndian, hn]
  | succ width ih =>
    have hdiv : n / 256 < 256 ^ width := by
      rw [Nat.pow_succ] at h
      omega
    rw [toBigEndian, ofBigEndian_concat, ih hdiv]
    have hbyte : (UInt8.ofNat (n % 256)).toNat = n % 256 := by simp
    rw [hbyte]
    omega

/-! ## The first record -/

/-- What stands at the front of an input. -/
inductive Front where
  /-- Too few bytes for the record to be complete. -/
  | incomplete
  /-- A declared length over the limit. -/
  | tooLong (length : ℕ)
  /-- A complete record and what follows it. -/
  | record (payload rest : List UInt8)
  deriving DecidableEq

variable (width limit : ℕ)

/-- The length that the first `width` bytes declare. -/
def declared (input : List UInt8) : ℕ := ofBigEndian (input.take width)

/-- Read the first record of an input. -/
def front (input : List UInt8) : Front :=
  if input.length < width then .incomplete
  else if limit < declared width input then .tooLong (declared width input)
  else if input.length < width + declared width input then .incomplete
  else
    .record ((input.drop width).take (declared width input))
      (input.drop (width + declared width input))

/-- A payload with its length in front. -/
def frame (payload : List UInt8) : List UInt8 := toBigEndian width payload.length ++ payload

variable {width limit} {input payload rest : List UInt8}

theorem declared_append (h : width ≤ input.length) (more : List UInt8) :
    declared width (input ++ more) = declared width input := by
  rw [declared, declared, List.take_append_of_le_length h]

/-- A record takes its prefix and its payload off the input. -/
theorem length_of_front_record (h : front width limit input = .record payload rest) :
    input.length = width + payload.length + rest.length := by
  unfold front at h
  split_ifs at h with hprefix hlong hshort
  obtain ⟨rfl, rfl⟩ := Front.record.inj h
  rw [List.length_take, List.length_drop, List.length_drop]
  omega

/-- A record that is read is within the limit. -/
theorem length_le_of_front_record (h : front width limit input = .record payload rest) :
    payload.length ≤ limit := by
  unfold front at h
  split_ifs at h with hprefix hlong hshort
  obtain ⟨rfl, rfl⟩ := Front.record.inj h
  rw [List.length_take]
  omega

/-- More input does not change a complete record. -/
theorem front_append_of_record (h : front width limit input = .record payload rest)
    (more : List UInt8) :
    front width limit (input ++ more) = .record payload (rest ++ more) := by
  unfold front at h
  split_ifs at h with hprefix hlong hshort
  obtain ⟨rfl, rfl⟩ := Front.record.inj h
  unfold front
  rw [declared_append (by omega), List.length_append, if_neg (by omega), if_neg hlong, if_neg (by omega)]
  congr 1
  · rw [List.drop_append_of_le_length (by omega),
      List.take_append_of_le_length (by rw [List.length_drop]; omega)]
  · exact List.drop_append_of_le_length (by omega)

/-- More input does not change a refused length. -/
theorem front_append_of_tooLong {length : ℕ} (h : front width limit input = .tooLong length)
    (more : List UInt8) : front width limit (input ++ more) = .tooLong length := by
  unfold front at h
  split_ifs at h with hprefix hlong hshort
  unfold front
  rw [declared_append (by omega), List.length_append, if_neg (by omega), if_pos hlong]
  exact h

/-- A framed payload is read back, whatever follows it. -/
theorem front_frame_append (hfits : payload.length < 256 ^ width) (hlimit : payload.length ≤ limit)
    (more : List UInt8) :
    front width limit (frame width payload ++ more) = .record payload more := by
  have hdeclared : declared width (frame width payload ++ more) = payload.length := by
    rw [declared, frame, List.append_assoc, List.take_left' (length_toBigEndian _ _),
      ofBigEndian_toBigEndian hfits]
  have hdrop : (frame width payload ++ more).drop width = payload ++ more := by
    rw [frame, List.append_assoc, List.drop_left' (length_toBigEndian _ _)]
  have hlength : (frame width payload ++ more).length = width + payload.length + more.length := by
    simp [frame, Nat.add_assoc]
  unfold front
  rw [hdeclared, hlength, if_neg (by omega), if_neg (by omega),
    if_neg (by omega), ← List.drop_drop, hdrop, List.take_left' rfl, List.drop_left' rfl]

theorem length_frame (payload : List UInt8) :
    (frame width payload).length = width + payload.length := by
  simp [frame]

/-- The front of a piece of a stream of records: the first of them, or nothing yet. -/
theorem front_of_isPrefix (hwidth : 0 < width) {payloads : List (List UInt8)}
    (hfits : ∀ payload ∈ payloads, payload.length < 256 ^ width ∧ payload.length ≤ limit)
    (h : input <+: (payloads.map (frame width)).flatten) :
    front width limit input = .incomplete ∨
      ∃ payload payloads' rest, payloads = payload :: payloads' ∧ input = frame width payload ++ rest ∧
        rest <+: (payloads'.map (frame width)).flatten ∧
        front width limit input = .record payload rest := by
  cases payloads with
  | nil =>
    obtain rfl : input = [] := List.prefix_nil.mp h
    exact .inl (if_pos hwidth)
  | cons payload payloads =>
    obtain ⟨hfits, hlimit⟩ := hfits payload List.mem_cons_self
    rw [List.map_cons, List.flatten_cons] at h
    rcases Nat.lt_or_ge input.length (frame width payload).length with hshort | hlong
    · left
      unfold front
      by_cases hprefix : input.length < width
      · rw [if_pos hprefix]
      · -- the length is there, but not all of what it declares
        have hdeclared : declared width input = payload.length := by
          obtain ⟨more, hmore⟩ := h
          have hframe : declared width (frame width payload) = payload.length := by
            rw [declared, frame, List.take_left' (length_toBigEndian _ _),
              ofBigEndian_toBigEndian hfits]
          rw [← declared_append (by omega) more, hmore,
            declared_append (by rw [length_frame]; omega), hframe]
        rw [if_neg hprefix, hdeclared, if_neg (by omega), if_pos]
        rwa [length_frame] at hshort
    · right
      obtain ⟨rest, rfl⟩ : frame width payload <+: input :=
        List.prefix_of_prefix_length_le (List.prefix_append _ _) h hlong
      refine ⟨payload, payloads, rest, rfl, rfl, ?_, front_frame_append hfits hlimit rest⟩
      exact (List.prefix_append_right_inj _).mp h

/-! ## All records -/

/-- The records of an input, up to its end or the first refused length. -/
def records (width limit : ℕ) (input : List UInt8) : List (List UInt8) :=
  if width = 0 then []
  else
    match _hfront : front width limit input with
    | .record payload rest => payload :: records width limit rest
    | .incomplete => []
    | .tooLong _ => []
termination_by input.length
decreasing_by
  have := length_of_front_record _hfront
  omega

theorem records_of_record (hwidth : 0 < width)
    (h : front width limit input = .record payload rest) :
    records width limit input = payload :: records width limit rest := by
  rw [records, if_neg (by omega)]
  split
  · next payload' rest' h' =>
    rw [h] at h'
    obtain ⟨rfl, rfl⟩ := Front.record.inj h'
    rfl
  all_goals simp_all

theorem records_eq_nil (h : ∀ payload rest, front width limit input ≠ .record payload rest) :
    records width limit input = [] := by
  rw [records]
  split
  · rfl
  · split
    · next payload rest hfront => exact absurd hfront (h payload rest)
    all_goals rfl

/-- The records of an input are within the limit. -/
theorem length_le_of_mem_records (h : payload ∈ records width limit input) :
    payload.length ≤ limit := by
  fun_induction records width limit input with
  | case1 => exact absurd h List.not_mem_nil
  | case2 input _ first rest hfront ih =>
    rcases List.mem_cons.mp h with rfl | hrest
    · exact length_le_of_front_record hfront
    · exact ih hrest
  | case3 => exact absurd h List.not_mem_nil
  | case4 => exact absurd h List.not_mem_nil

end LengthPrefix
