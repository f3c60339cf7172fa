/-!
# Big-endian numbers

A number travels as a fixed count of bytes, most significant byte first.  `encode` keeps the low
bytes of a number and `decode` reads any byte string as a number; on strings of one length they
are inverse to each other.
-/

namespace RecordCodec.BigEndian

/-- The least number that needs more than `length` bytes. -/
def bound : (length : Nat) → Nat
  | 0 => 1
  | length + 1 => 256 * bound length

theorem bound_pos (length : Nat) : 0 < bound length := by
  induction length with
  | zero => exact Nat.one_pos
  | succ length ih => exact Nat.mul_pos (by decide) ih

theorem bound_add (left right : Nat) : bound (left + right) = bound left * bound right := by
  induction left with
  | zero => rw [Nat.zero_add, bound, Nat.one_mul]
  | succ left ih => rw [Nat.succ_add, bound, ih, bound, Nat.mul_assoc]

/-- The low `length` bytes of `value`, most significant first. -/
def encode : (length value : Nat) → List UInt8
  | 0, _ => []
  | length + 1, value => UInt8.ofNat (value / bound length) :: encode length value

/-- The number that `bytes` spell, most significant byte first. -/
def decode (bytes : List UInt8) : Nat :=
  bytes.foldl (fun value byte => value * 256 + byte.toNat) 0

@[simp]
theorem length_encode (length value : Nat) : (encode length value).length = length := by
  induction length with
  | zero => rfl
  | succ length ih => simp [encode, ih]

private theorem foldl_eq (bytes : List UInt8) (start : Nat) :
    bytes.foldl (fun value byte => value * 256 + byte.toNat) start =
      start * bound bytes.length + decode bytes := by
  induction bytes generalizing start with
  | nil => simp [decode, bound]
  | cons byte bytes ih =>
    simp only [decode, List.foldl_cons, List.length_cons, Nat.zero_mul, Nat.zero_add]
    rw [ih, ih byte.toNat, Nat.add_mul, Nat.mul_assoc, bound, Nat.add_assoc]

@[simp]
theorem decode_nil : decode [] = 0 := rfl

theorem decode_cons (byte : UInt8) (bytes : List UInt8) :
    decode (byte :: bytes) = byte.toNat * bound bytes.length + decode bytes := by
  simp only [decode, List.foldl_cons, Nat.zero_mul, Nat.zero_add]
  exact foldl_eq bytes byte.toNat

/-- A string of `k` bytes spells a number below the bound of `k` bytes. -/
theorem decode_lt (bytes : List UInt8) : decode bytes < bound bytes.length := by
  induction bytes with
  | nil => exact Nat.one_pos
  | cons byte bytes ih =>
    rw [decode_cons, List.length_cons, bound]
    have hbyte := byte.toNat_lt
    calc byte.toNat * bound bytes.length + decode bytes
        < byte.toNat * bound bytes.length + bound bytes.length := by omega
      _ = (byte.toNat + 1) * bound bytes.length := by rw [Nat.add_mul, Nat.one_mul]
      _ ≤ 256 * bound bytes.length := Nat.mul_le_mul_right _ (by omega)

/-- Zeros in front do not change the number. -/
theorem decode_replicate_append (gap : Nat) (bytes : List UInt8) :
    decode (List.replicate gap 0 ++ bytes) = decode bytes := by
  induction gap with
  | zero => rfl
  | succ gap ih =>
    rw [List.replicate_succ, List.cons_append, decode_cons, ih, UInt8.toNat_zero, Nat.zero_mul,
      Nat.zero_add]

/-- The last bytes of a number are the number in fewer bytes. -/
theorem drop_encode (gap length value : Nat) :
    (encode (gap + length) value).drop gap = encode length value := by
  induction gap with
  | zero => rw [Nat.zero_add, List.drop_zero]
  | succ gap ih => rw [Nat.succ_add, encode, List.drop_succ_cons, ih]

/-- Writing keeps exactly the low bytes of a number. -/
theorem decode_encode (length value : Nat) :
    decode (encode length value) = value % bound length := by
  induction length with
  | zero => simp [encode, bound, Nat.mod_one]
  | succ length ih =>
    have hbyte : (UInt8.ofNat (value / bound length)).toNat = value / bound length % 256 := by
      simp [UInt8.toNat_ofNat']
    rw [encode, decode_cons, ih, length_encode, hbyte, bound, Nat.mul_comm 256, Nat.mod_mul,
      Nat.mul_comm, Nat.add_comm]

theorem decode_encode_of_lt {length value : Nat} (h : value < bound length) :
    decode (encode length value) = value := by
  rw [decode_encode, Nat.mod_eq_of_lt h]

private theorem encode_add_mul (length value head : Nat) :
    encode length (head * bound length + value) = encode length value := by
  suffices h : ∀ k, k ≤ length →
      encode k (head * bound length + value) = encode k value from h length (Nat.le_refl _)
  intro k hk
  induction k with
  | zero => rfl
  | succ k ih =>
    rw [encode, encode, ih (by omega)]
    congr 1
    obtain ⟨gap, rfl⟩ : ∃ gap, length = k + 1 + gap := ⟨length - (k + 1), by omega⟩
    have hsplit : head * bound (k + 1 + gap) = bound k * (256 * (head * bound gap)) := by
      rw [bound_add, bound]
      simp only [Nat.mul_assoc, Nat.mul_left_comm]
    rw [hsplit, Nat.mul_add_div (bound_pos k)]
    apply UInt8.toNat_inj.1
    simp [UInt8.toNat_ofNat']

/-- Every byte string is the written form of the number that it spells. -/
theorem encode_decode (bytes : List UInt8) : encode bytes.length (decode bytes) = bytes := by
  induction bytes with
  | nil => rfl
  | cons byte bytes ih =>
    rw [List.length_cons, encode, decode_cons, encode_add_mul, ih]
    congr 1
    rw [Nat.mul_comm, Nat.mul_add_div (bound_pos _), Nat.div_eq_of_lt (decode_lt bytes),
      Nat.add_zero, UInt8.ofNat_toNat]

end RecordCodec.BigEndian
