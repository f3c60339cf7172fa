import RecordCodec.Stream.Basic
import Mathlib.Data.Nat.Digits.Defs
import Mathlib.Tactic.Common

/-!
# What narrowing keeps

The cast to a word cuts a number off and the buffer has room for more bytes than the width.  Neither
shows: narrowing succeeds exactly on the numbers that the width can hold, and gives them big-endian.
Widening succeeds exactly on the strings that have the length of a width, gives the number that they
spell, and is the inverse of narrowing to that width.
-/

namespace RecordCodec

open BigEndian

variable {value : Int64} {width : Width} {bytes : List UInt8}

/-! ## Words -/

theorem Width.bound_le_size (width : Width) : bound width.bytes ≤ UInt32.size := by
  cases width <;> decide

theorem Width.ofBytes?_eq_some_iff {count : Nat} :
    Width.ofBytes? count = some width ↔ width.bytes = count := by
  constructor
  · exact Width.bytes_of_ofBytes?
  · rintro rfl
    exact width.ofBytes?_bytes

theorem Width.toInt_ofNat_of_lt_bound {number : Nat} (width : Width)
    (h : number < bound width.bytes) : (Int64.ofNat number).toInt = number := by
  apply Int64.toInt_ofNat_of_lt
  calc
    number < bound width.bytes := h
    _ ≤ 2 ^ 63 := by cases width <;> decide

/-- Whether a number fits does not depend on the word that it is compared by. -/
theorem any_word?_iff :
    (word? value).any (·.toNat ≤ width.maxValue) = true ↔
      0 ≤ value.toInt ∧ value.toInt ≤ width.maxValue := by
  have hsize : width.maxValue < UInt32.size := by
    have hbound := width.bound_le_size
    have hlt := (width.le_maxValue_iff _).1 (Nat.le_refl width.maxValue)
    omega
  rw [word?]
  split
  · rename_i hword
    rw [Option.any_some, decide_eq_true_eq, UInt32.toNat_ofNat_of_lt' (by omega)]
    omega
  · rename_i hword
    rw [Option.any_none]
    constructor
    · nofun
    · omega

/-- A number that a word can hold is not cut off. -/
theorem toNat_toUInt32_of_le (hnonneg : 0 ≤ value.toInt) (hlt : value.toInt < UInt32.size) :
    value.toUInt64.toUInt32.toNat = value.toInt.toNat := by
  have hvalue : value = Int64.ofNat value.toInt.toNat := by
    rw [Int64.toNat_toInt, Int64.ofNat_toNatClampNeg _ (Int64.le_iff_toInt_le.2 hnonneg)]
  have hsmall : value.toInt.toNat < UInt32.size := by omega
  calc
    value.toUInt64.toUInt32.toNat = (UInt64.ofNat value.toInt.toNat).toUInt32.toNat := by
      rw [← Int64.toUInt64_ofNat', ← hvalue]
    _ = value.toInt.toNat := by
      rw [UInt64.toUInt32_ofNat', UInt32.toNat_ofNat_of_lt' hsmall]

/-- What ends the four bytes of a number is the number in the bytes of the width. -/
theorem Width.drop_encode_word (width : Width) (number : Nat) :
    (encode 4 number).drop (4 - width.bytes) = encode width.bytes number := by
  have hgap : 4 - width.bytes + width.bytes = 4 := by cases width <;> rfl
  calc
    (encode 4 number).drop (4 - width.bytes) =
        (encode (4 - width.bytes + width.bytes) number).drop (4 - width.bytes) := by rw [hgap]
    _ = encode width.bytes number := drop_encode _ _ _

/-! ## From outside -/

/-- Narrowing gives the bytes of every number that fits, and refuses the others. -/
theorem narrow_eq (value : Int64) (width : Width) :
    narrow value width =
      if 0 ≤ value.toInt ∧ value.toInt ≤ width.maxValue then
        .ok (encode width.bytes value.toInt.toNat)
      else
        .error (.valueOutOfRange value width) := by
  rw [narrow, Narrowed.ofInt64]
  by_cases hfits : 0 ≤ value.toInt ∧ value.toInt ≤ width.maxValue
  · have hsize : value.toInt < UInt32.size := by
      have hbound := width.bound_le_size
      have hlt := (width.le_maxValue_iff value.toInt.toNat).1 (by omega)
      omega
    rw [if_pos (any_word?_iff.2 hfits), if_pos hfits]
    change Except.ok ((encode 4 value.toUInt64.toUInt32.toNat).drop (4 - width.bytes)) = _
    rw [width.drop_encode_word, toNat_toUInt32_of_le hfits.1 hsize]
  · rw [if_neg (mt any_word?_iff.1 hfits), if_neg hfits]
    rfl

/-- Widening gives the number that the bytes spell, if a width has so many. -/
theorem widen_eq (bytes : List UInt8) :
    widen bytes = match Width.ofBytes? bytes.length with
      | some _ => .ok (Int64.ofNat (decode bytes))
      | none => .error (.invalidWidth bytes.length) := by
  rw [widen]
  cases hwidth : Width.ofBytes? bytes.length with
  | none => rfl
  | some width =>
    have hlt : decode bytes < UInt32.size := by
      calc
        decode bytes < bound bytes.length := decode_lt bytes
        _ = bound width.bytes := by rw [Width.bytes_of_ofBytes? hwidth]
        _ ≤ UInt32.size := width.bound_le_size
    simp only [decode_replicate_append]
    rw [UInt32.toUInt64_ofNat' hlt, UInt64.toInt64_ofNat']

/-! ## Both ways -/

theorem BigEndian.bound_eq_pow (length : Nat) : bound length = 256 ^ length := by
  induction length with
  | zero => rfl
  | succ length ih => rw [bound, ih, Nat.pow_succ, Nat.mul_comm]

/-- The number that bytes spell has them as its digits, the last one first. -/
theorem BigEndian.decode_eq_ofDigits (bytes : List UInt8) :
    decode bytes = Nat.ofDigits 256 (bytes.reverse.map UInt8.toNat) := by
  induction bytes with
  | nil => rfl
  | cons byte bytes ih =>
    rw [decode_cons, ih, bound_eq_pow, List.reverse_cons, List.map_append, Nat.ofDigits_append,
      List.length_map, List.length_reverse, List.map_singleton, Nat.ofDigits_singleton,
      Nat.mul_comm, Nat.add_comm]

theorem Width.fits_iff_lt_pow :
    (0 ≤ value.toInt ∧ value.toInt ≤ width.maxValue) ↔
      0 ≤ value.toInt ∧ value.toInt < 256 ^ width.bytes := by
  apply and_congr_right
  intro hnonneg
  have hmax := width.le_maxValue_iff value.toInt.toNat
  rw [bound_eq_pow] at hmax
  have hpow : ((256 ^ width.bytes : Nat) : Int) = 256 ^ width.bytes := by push_cast; rfl
  omega

theorem narrow_eq_ok_iff :
    narrow value width = .ok bytes ↔
      (0 ≤ value.toInt ∧ value.toInt ≤ width.maxValue) ∧
        encode width.bytes value.toInt.toNat = bytes := by
  rw [narrow_eq]
  split
  · rename_i hfits
    rw [Except.ok.injEq]
    exact (and_iff_right hfits).symm
  · rename_i hfits
    exact ⟨nofun, fun h => absurd h.1 hfits⟩

theorem widen_eq_ok_iff :
    widen bytes = .ok value ↔
      (∃ width : Width, width.bytes = bytes.length) ∧ value.toInt = decode bytes := by
  rw [widen_eq]
  cases hwidth : Width.ofBytes? bytes.length with
  | none =>
    have hnone : ¬ ∃ width : Width, width.bytes = bytes.length := by
      rintro ⟨width, hbytes⟩
      rw [Width.ofBytes?_eq_some_iff.2 hbytes] at hwidth
      cases hwidth
    exact ⟨nofun, fun h => absurd h.1 hnone⟩
  | some width =>
    have hbytes : width.bytes = bytes.length := Width.bytes_of_ofBytes? hwidth
    have hnumber : (Int64.ofNat (decode bytes)).toInt = decode bytes :=
      width.toInt_ofNat_of_lt_bound (hbytes ▸ decode_lt bytes)
    rw [Except.ok.injEq, ← Int64.toInt_inj, hnumber]
    exact ⟨fun h => ⟨⟨width, hbytes⟩, h.symm⟩, fun h => h.2.symm⟩

theorem Width.exists_bytes_eq_iff {count : Nat} :
    (∃ width : Width, width.bytes = count) ↔ count = 1 ∨ count = 2 ∨ count = 4 := by
  constructor
  · rintro ⟨width, rfl⟩
    cases width <;> decide
  · rintro (rfl | rfl | rfl)
    · exact ⟨.u8, rfl⟩
    · exact ⟨.u16, rfl⟩
    · exact ⟨.u32, rfl⟩

/-- The bytes of a narrowed number have it as their number. -/
theorem spells_of_narrow (h : narrow value width = .ok bytes) :
    bytes.length = width.bytes ∧ value.toInt = decode bytes := by
  obtain ⟨⟨hnonneg, hmax⟩, rfl⟩ := narrow_eq_ok_iff.1 h
  have hlt : value.toInt.toNat < bound width.bytes := (width.le_maxValue_iff _).1 (by omega)
  rw [length_encode, decode_encode_of_lt hlt, Int.toNat_of_nonneg hnonneg]
  exact ⟨rfl, rfl⟩

/-- A number that bytes of the width spell is narrowed to them. -/
theorem narrow_of_spells (hlength : width.bytes = bytes.length) (h : value.toInt = decode bytes) :
    narrow value width = .ok bytes := by
  have hlt : decode bytes < bound width.bytes := hlength ▸ decode_lt bytes
  have hmax : decode bytes ≤ width.maxValue := (width.le_maxValue_iff _).2 hlt
  refine narrow_eq_ok_iff.2 ⟨by omega, ?_⟩
  rw [h, Int.toNat_natCast, hlength, encode_decode]

/-- Narrowing and widening are inverse to each other.  Narrowed are exactly the numbers from zero up
to those that need more bytes than the width has; the bytes are as many as the width has, spell the
number with the most significant byte first, and are widened to it again.  Widened are exactly the
strings of one, two or four bytes; the number is the one that they spell, so it is not negative, and
at the width of so many bytes it is narrowed to them again. -/
theorem narrow_and_widen_inverse :
    (∀ (value : Int64) (width : Width),
      ((∃ bytes, narrow value width = .ok bytes) ↔
        0 ≤ value.toInt ∧ value.toInt < 256 ^ width.bytes) ∧
      ∀ bytes, narrow value width = .ok bytes →
        bytes.length = width.bytes ∧
          value.toInt = (Nat.ofDigits 256 (bytes.reverse.map UInt8.toNat) : Nat) ∧
          widen bytes = .ok value) ∧
    ∀ bytes : List UInt8,
      ((∃ value, widen bytes = .ok value) ↔
        bytes.length = 1 ∨ bytes.length = 2 ∨ bytes.length = 4) ∧
      ∀ value, widen bytes = .ok value →
        0 ≤ value.toInt ∧
          value.toInt = (Nat.ofDigits 256 (bytes.reverse.map UInt8.toNat) : Nat) ∧
          ∃ width : Width, width.bytes = bytes.length ∧ narrow value width = .ok bytes := by
  refine ⟨fun value width => ⟨?_, fun bytes hnarrow => ?_⟩,
    fun bytes => ⟨?_, fun value hwiden => ?_⟩⟩
  · rw [← Width.fits_iff_lt_pow]
    constructor
    · rintro ⟨bytes, hnarrow⟩
      exact (narrow_eq_ok_iff.1 hnarrow).1
    · intro hfits
      exact ⟨_, narrow_eq_ok_iff.2 ⟨hfits, rfl⟩⟩
  · obtain ⟨hlength, hspells⟩ := spells_of_narrow hnarrow
    rw [← decode_eq_ofDigits]
    exact ⟨hlength, hspells, widen_eq_ok_iff.2 ⟨⟨width, hlength.symm⟩, hspells⟩⟩
  · rw [← Width.exists_bytes_eq_iff]
    constructor
    · rintro ⟨value, hwiden⟩
      exact (widen_eq_ok_iff.1 hwiden).1
    · rintro ⟨width, hlength⟩
      refine ⟨Int64.ofNat (decode bytes), widen_eq_ok_iff.2 ⟨⟨width, hlength⟩, ?_⟩⟩
      exact width.toInt_ofNat_of_lt_bound (hlength ▸ decode_lt bytes)
  · obtain ⟨⟨width, hlength⟩, hspells⟩ := widen_eq_ok_iff.1 hwiden
    rw [← decode_eq_ofDigits]
    exact ⟨by omega, hspells, width, hlength, narrow_of_spells hlength hspells⟩

end RecordCodec
