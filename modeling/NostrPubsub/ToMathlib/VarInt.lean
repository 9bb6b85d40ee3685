import Mathlib.Data.Nat.Digits.Lemmas

/-!
# Variable-length integers, most significant digit first

A number travels as its digits in base 128, most significant first, with the high bit set on
every byte but the last. A reader takes a bounded number of bytes and refuses a value over its
limit; which error it reports for which fault is a parameter, and what it accepts does not
depend on it (`VarInt.read_ok`).
-/

namespace VarInt

/-- The low seven bits of a byte. -/
theorem toNat_and_low (byte : UInt8) : (byte &&& 127).toNat = byte.toNat % 128 := by
  rw [UInt8.toNat_and]
  exact Nat.and_two_pow_sub_one_eq_mod byte.toNat 7

/-- The high bit of a byte. -/
theorem and_high_eq_zero (byte : UInt8) : byte &&& 128 = 0 ↔ byte.toNat < 128 := by
  have hall : ∀ n < 256, UInt8.ofNat n &&& 128 = 0 ↔ n < 128 := by decide +kernel
  simpa using hall byte.toNat byte.toNat_lt

/-- The high bit set on a digit. -/
theorem ofNat_or_high {digit : ℕ} (h : digit < 128) :
    UInt8.ofNat digit ||| 128 = UInt8.ofNat (128 + digit) := by
  have hall : ∀ d < 128, UInt8.ofNat d ||| 128 = UInt8.ofNat (128 + d) := by decide +kernel
  exact hall digit h

/-! ## Writing -/

/-- The bytes of a number that is continued by further digits. -/
def leading (n : ℕ) : List UInt8 :=
  ((Nat.digits 128 n).map fun digit => UInt8.ofNat (128 + digit)).reverse

/-- The bytes of a number. -/
def encode (n : ℕ) : List UInt8 := leading (n / 128) ++ [UInt8.ofNat (n % 128)]

@[simp]
theorem leading_zero : leading 0 = [] := by simp [leading]

theorem leading_of_pos {n : ℕ} (h : 0 < n) :
    leading n = leading (n / 128) ++ [UInt8.ofNat (128 + n % 128)] := by
  rw [leading, Nat.digits_def' (by decide) h]
  simp [leading]

theorem length_leading (n : ℕ) : (leading n).length = (Nat.digits 128 n).length := by
  simp [leading]

theorem length_leading_le {n k : ℕ} (h : n < 128 ^ k) : (leading n).length ≤ k := by
  rw [length_leading]
  exact (Nat.digits_length_le_iff (by decide) n).mpr h

@[simp]
theorem encode_ne_nil (n : ℕ) : encode n ≠ [] := by simp [encode]

theorem length_encode_le {n k : ℕ} (h : n < 128 ^ (k + 1)) : (encode n).length ≤ k + 1 := by
  have hdiv : n / 128 < 128 ^ k := by
    rw [Nat.pow_succ] at h
    omega
  have := length_leading_le hdiv
  simpa [encode] using this

theorem encode_of_lt {n : ℕ} (h : n < 128) : encode n = [UInt8.ofNat n] := by
  rw [encode, Nat.div_eq_of_lt h, leading_zero, Nat.mod_eq_of_lt h, List.nil_append]

/-! ## Reading -/

/-- What a reader reports. -/
structure Errors (ε : Type*) where
  /-- The input ends inside the number. -/
  truncated : ε
  /-- The value passes the limit. -/
  overflow : ε
  /-- No last byte within the bytes allowed. -/
  tooLong : ε

section Read

variable {ε ε' : Type*} (errors : Errors ε) (limit : ℕ)

/-- Read at most `rounds` more bytes of a number whose digits so far spell `value`. -/
def read : (rounds value : ℕ) → List UInt8 → Except ε (ℕ × List UInt8)
  | 0, _, _ => .error errors.tooLong
  | _ + 1, _, [] => .error errors.truncated
  | rounds + 1, value, byte :: rest =>
    let value' := value * 128 + (byte &&& 127).toNat
    if limit < value' then .error errors.overflow
    else if byte &&& 128 = 0 then .ok (value', rest)
    else read rounds value' rest

variable {errors limit}

/-- What is read does not depend on how faults are reported. -/
theorem read_ok (errors' : Errors ε') {rounds value : ℕ} {bytes : List UInt8} {r : ℕ × List UInt8}
    (h : read errors limit rounds value bytes = .ok r) :
    read errors' limit rounds value bytes = .ok r := by
  induction rounds generalizing value bytes with
  | zero => cases h
  | succ rounds ih =>
    cases bytes with
    | nil => cases h
    | cons byte rest =>
      simp only [read] at h ⊢
      split at h
      · cases h
      · next hlimit =>
        rw [if_neg hlimit]
        split at h
        · next hhigh =>
          rw [if_pos hhigh]
          cases h
          rfl
        · next hhigh =>
          rw [if_neg hhigh]
          exact ih h

theorem read_le {rounds value n : ℕ} {bytes rest : List UInt8}
    (h : read errors limit rounds value bytes = .ok (n, rest)) : n ≤ limit := by
  induction rounds generalizing value bytes with
  | zero => cases h
  | succ rounds ih =>
    cases bytes with
    | nil => cases h
    | cons byte tail =>
      simp only [read] at h
      split at h
      · cases h
      · next hlimit =>
        split at h
        · cases h
          omega
        · exact ih h

/-- At least one byte is read. -/
theorem length_read_lt {rounds value n : ℕ} {bytes rest : List UInt8}
    (h : read errors limit rounds value bytes = .ok (n, rest)) : rest.length < bytes.length := by
  induction rounds generalizing value bytes with
  | zero => cases h
  | succ rounds ih =>
    cases bytes with
    | nil => cases h
    | cons byte tail =>
      simp only [read] at h
      split at h
      · cases h
      · split at h
        · cases h
          simp
        · have := ih h
          simp only [List.length_cons]
          omega

private theorem toNat_ofNat_high (n : ℕ) : (UInt8.ofNat (128 + n % 128)).toNat = 128 + n % 128 := by
  rw [UInt8.toNat_ofNat']
  omega

/-- Reading over the continued digits of a number. -/
theorem read_leading {rounds n : ℕ} (rest : List UInt8) (hlimit : n ≤ limit)
    (hrounds : (leading n).length ≤ rounds) :
    read errors limit rounds 0 (leading n ++ rest)
      = read errors limit (rounds - (leading n).length) n rest := by
  induction n using Nat.strongRecOn generalizing rest with
  | ind n ih =>
    rcases Nat.eq_zero_or_pos n with rfl | hn
    · simp
    · have hcons := leading_of_pos hn
      have hlen : (leading n).length = (leading (n / 128)).length + 1 := by simp [hcons]
      rw [hcons, List.append_assoc, ih (n / 128) (by omega) _ (by omega) (by omega)]
      obtain ⟨k, hk⟩ : ∃ k, rounds - (leading (n / 128)).length = k + 1 :=
        ⟨rounds - (leading n).length, by omega⟩
      rw [← hcons, hlen, show rounds - ((leading (n / 128)).length + 1) = k by omega, hk,
        List.singleton_append, read]
      have hvalue : n / 128 * 128 + (UInt8.ofNat (128 + n % 128) &&& 127).toNat = n := by
        rw [toNat_and_low, toNat_ofNat_high]
        omega
      have hhigh : ¬ UInt8.ofNat (128 + n % 128) &&& 128 = 0 := by
        rw [and_high_eq_zero, toNat_ofNat_high]
        omega
      simp only [hvalue, if_neg hhigh, if_neg (Nat.not_lt.mpr hlimit)]

/-- A written number is read back, and what follows it is left. -/
theorem read_encode {rounds n : ℕ} (rest : List UInt8) (hlimit : n ≤ limit)
    (hrounds : n < 128 ^ (rounds + 1)) :
    read errors limit (rounds + 1) 0 (encode n ++ rest) = .ok (n, rest) := by
  have hdiv : n / 128 < 128 ^ rounds := by
    rw [Nat.pow_succ] at hrounds
    omega
  have hlen := length_leading_le hdiv
  rw [encode, List.append_assoc, read_leading _ (by omega) (by omega)]
  obtain ⟨k, hk⟩ : ∃ k, rounds + 1 - (leading (n / 128)).length = k + 1 :=
    ⟨rounds - (leading (n / 128)).length, by omega⟩
  rw [hk, List.singleton_append, read]
  have hbyte : (UInt8.ofNat (n % 128)).toNat = n % 128 := by
    rw [UInt8.toNat_ofNat']
    omega
  have hvalue : n / 128 * 128 + (UInt8.ofNat (n % 128) &&& 127).toNat = n := by
    rw [toNat_and_low, hbyte]
    omega
  have hhigh : UInt8.ofNat (n % 128) &&& 128 = 0 := by
    rw [and_high_eq_zero, hbyte]
    omega
  simp only [hvalue, if_pos hhigh, if_neg (Nat.not_lt.mpr hlimit)]

/-- The digits of a number, and one more digit. -/
theorem leading_digit {value digit : ℕ} (hdigit : digit < 128) (h : 0 < value * 128 + digit) :
    leading (value * 128 + digit) = leading value ++ [UInt8.ofNat (128 + digit)] := by
  have hdiv : (value * 128 + digit) / 128 = value := by omega
  have hmod : (value * 128 + digit) % 128 = digit := by omega
  rw [leading_of_pos h, hdiv, hmod]

/-- What is read was written, unless it starts with a byte that adds a zero digit in front. -/
theorem append_of_read {rounds value n : ℕ} {bytes rest : List UInt8}
    (h : read errors limit rounds value bytes = .ok (n, rest))
    (hhead : 0 < value ∨ bytes.head? ≠ some 128) :
    leading value ++ bytes = encode n ++ rest := by
  induction rounds generalizing value bytes with
  | zero => cases h
  | succ rounds ih =>
    cases bytes with
    | nil => cases h
    | cons byte tail =>
      have hlow := toNat_and_low byte
      have hbyte := byte.toNat_lt
      have hsame := UInt8.ofNat_toNat (x := byte)
      simp only [read, hlow] at h
      split at h
      · cases h
      · split at h
        · next hlast =>
          -- the last byte is the lowest digit
          rw [and_high_eq_zero] at hlast
          have hmod : byte.toNat % 128 = byte.toNat := Nat.mod_eq_of_lt hlast
          obtain ⟨rfl, rfl⟩ := Prod.mk.inj (Except.ok.inj h)
          have hdiv : (value * 128 + byte.toNat % 128) / 128 = value := by omega
          have hdigit : (value * 128 + byte.toNat % 128) % 128 = byte.toNat := by omega
          rw [encode, hdiv, hdigit, hsame, List.append_assoc, List.singleton_append]
        · next hmore =>
          rw [and_high_eq_zero, Nat.not_lt] at hmore
          -- a zero digit in front is the byte 128, which was ruled out
          have hpos : 0 < value * 128 + byte.toNat % 128 := by
            rcases hhead with hvalue | hne
            · omega
            · have hne' : byte.toNat ≠ 128 := fun heq => hne (by
                rw [List.head?_cons, ← hsame, heq]
                rfl)
              omega
          have hdigit : 128 + byte.toNat % 128 = byte.toNat := by omega
          have := ih h (.inl hpos)
          rwa [leading_digit (Nat.mod_lt _ (by decide)) hpos, hdigit, hsame, List.append_assoc,
            List.singleton_append] at this

end Read

theorem head?_leading_ne {n : ℕ} (h : 0 < n) : (leading n).head? ≠ some 128 := by
  induction n using Nat.strongRecOn with
  | ind n ih =>
    rw [leading_of_pos h]
    rcases Nat.eq_zero_or_pos (n / 128) with hzero | hpos
    · have hbyte : UInt8.ofNat (128 + n % 128) ≠ 128 := fun heq => by
        have := congrArg UInt8.toNat heq
        rw [UInt8.toNat_ofNat', show (128 : UInt8).toNat = 128 from rfl] at this
        omega
      simpa [hzero] using hbyte
    · have hne : leading (n / 128) ≠ [] := by
        rw [leading_of_pos hpos]
        simp
      rw [List.head?_append_of_ne_nil _ hne]
      exact ih _ (by omega) hpos

/-- Nothing is written with a zero digit in front. -/
theorem head?_encode_ne (n : ℕ) : (encode n).head? ≠ some 128 := by
  rcases Nat.lt_or_ge n 128 with hlt | hge
  · have hbyte : UInt8.ofNat n ≠ 128 := fun heq => by
      have := congrArg UInt8.toNat heq
      rw [UInt8.toNat_ofNat', show (128 : UInt8).toNat = 128 from rfl] at this
      omega
    simpa [encode_of_lt hlt] using hbyte
  · have hpos : 0 < n / 128 := by omega
    have hne : leading (n / 128) ≠ [] := by
      rw [leading_of_pos hpos]
      simp
    rw [encode, List.head?_append_of_ne_nil _ hne]
    exact head?_leading_ne hpos

end VarInt
