import RecordCodec.Stream.Item
import RecordCodec.Proofs.Stream.Reading
import RecordCodec.Proofs.Stream.Writing

/-!
# Items as bytes

An item stands for a byte string: a number for its big-endian form, where a negative number has a
place among the large ones, and raw bytes for themselves.  To write an item is to write its bytes,
unless it is an unsigned number that its width cannot hold.  A read gives the item that stands for
the bytes that it takes.

Items are written and read in sequences that go on after a failure.  What each step keeps, a whole
sequence keeps.
-/

namespace RecordCodec

open BigEndian

/-! ## Negative numbers -/

namespace BigEndian

/-- The low `length` bytes of `value`, most significant first, also of a negative number. -/
def encodeInt (length : Nat) (value : Int) : List UInt8 :=
  encode length (value % bound length).toNat

theorem encodeInt_toInt {length bits : Nat} (hbits : bound length = 2 ^ bits) (word : BitVec bits) :
    encodeInt length word.toInt = encode length word.toNat := by
  have hword : word.toInt % (bound length : Nat) = word.toNat := by
    rw [hbits, BitVec.toInt_eq_toNat_bmod, Int.bmod_emod]
    exact Int.emod_eq_of_lt (by omega) (by exact_mod_cast word.isLt)
  rw [encodeInt, hword, Int.toNat_natCast]

theorem encodeInt_of_nonneg {length : Nat} {value : Int} (hnonneg : 0 ≤ value)
    (hlt : value < bound length) : encodeInt length value = encode length value.toNat := by
  rw [encodeInt, Int.emod_eq_of_lt hnonneg hlt]

theorem encodeInt_natCast {length value : Nat} (hlt : value < bound length) :
    encodeInt length value = encode length value :=
  encodeInt_of_nonneg (Int.natCast_nonneg value) (Int.ofNat_lt.2 hlt)

end BigEndian

/-! ## The bytes of an item -/

def ItemType.length : ItemType → Nat
  | uint8 | int8 => 1
  | int16 | uint16 => 2
  | int32 | float32 => 4
  | int64 | float64 => 8
  | unsigned width => width.bytes
  | raw length => length

namespace Item

def bytes : Item → List UInt8
  | uint8 value => encodeInt 1 value.toNat
  | int8 value => encodeInt 1 value.toInt
  | int16 value => encodeInt 2 value.toInt
  | uint16 value => encodeInt 2 value.toNat
  | int32 value => encodeInt 4 value.toInt
  | int64 value => encodeInt 8 value.toInt
  | float32 bits => encodeInt 4 bits.toNat
  | float64 bits => encodeInt 8 bits.toNat
  | unsigned width value => encodeInt width.bytes value.toInt
  | raw bytes => bytes

/-- An unsigned number is not negative and needs no more bytes than its width has. -/
def Fits : Item → Prop
  | unsigned width value => 0 ≤ value.toInt ∧ value.toInt < bound width.bytes
  | _ => True

theorem length_bytes (item : Item) : item.bytes.length = item.type.length := by
  cases item <;> simp [bytes, type, ItemType.length, encodeInt]

/-! In terms of words, the bytes are those that typed reads and writes deal with. -/

section Words

theorem bytes_uint8 (value : UInt8) : (uint8 value).bytes = encode 1 value.toNat :=
  encodeInt_natCast value.toNat_lt

theorem bytes_int8 (value : Int8) : (int8 value).bytes = encode 1 value.toUInt8.toNat :=
  encodeInt_toInt rfl value.toBitVec

theorem bytes_int16 (value : Int16) : (int16 value).bytes = encode 2 value.toUInt16.toNat :=
  encodeInt_toInt rfl value.toBitVec

theorem bytes_uint16 (value : UInt16) : (uint16 value).bytes = encode 2 value.toNat :=
  encodeInt_natCast value.toNat_lt

theorem bytes_int32 (value : Int32) : (int32 value).bytes = encode 4 value.toUInt32.toNat :=
  encodeInt_toInt rfl value.toBitVec

theorem bytes_int64 (value : Int64) : (int64 value).bytes = encode 8 value.toUInt64.toNat :=
  encodeInt_toInt rfl value.toBitVec

theorem bytes_float32 (bits : UInt32) : (float32 bits).bytes = encode 4 bits.toNat :=
  encodeInt_natCast bits.toNat_lt

theorem bytes_float64 (bits : UInt64) : (float64 bits).bytes = encode 8 bits.toNat :=
  encodeInt_natCast bits.toNat_lt

theorem bytes_unsigned {width : Width} {value : Int64} (hfits : (unsigned width value).Fits) :
    (unsigned width value).bytes = encode width.bytes value.toInt.toNat :=
  encodeInt_of_nonneg hfits.1 hfits.2

end Words

theorem fits_unsigned_iff {width : Width} {value : Int64} :
    (unsigned width value).Fits ↔ 0 ≤ value.toInt ∧ value.toInt ≤ width.maxValue := by
  have hmax := width.le_maxValue_iff value.toInt.toNat
  rw [Fits]
  omega

/-! ## Writing -/

variable {κ : Type}

/-- An item that fits is written like any byte string. -/
theorem write_of_fits [Sink κ] {item : Item} (hfits : item.Fits) :
    (item.write : Writing κ Unit) = Sink.writeBytes item.bytes := by
  cases item with
  | uint8 value => rw [bytes_uint8]; rfl
  | int8 value => rw [bytes_int8]; rfl
  | int16 value => rw [bytes_int16]; rfl
  | uint16 value => rw [bytes_uint16]; rfl
  | int32 value => rw [bytes_int32]; rfl
  | int64 value => rw [bytes_int64]; rfl
  | float32 bits => rw [bytes_float32]; rfl
  | float64 bits => rw [bytes_float64]; rfl
  | unsigned width value =>
    rw [bytes_unsigned hfits]
    exact Sink.writeUnsigned_of_le (fits_unsigned_iff.1 hfits)
  | raw bytes => rfl

/-- Why a sink that has room for `capacity` bytes refuses an item. -/
inductive Refused (capacity : Nat) : Item → StreamError → Prop where
  | outOfRange {width : Width} {value : Int64} : ¬ (unsigned width value).Fits →
      Refused capacity (unsigned width value) (.valueOutOfRange value width)
  | noRoom {item : Item} : item.Fits → capacity < item.bytes.length →
      Refused capacity item (.overflow item.bytes.length capacity)

theorem run_write_of_not_fits [Sink κ] {width : Width} {value : Int64}
    (h : ¬ (unsigned width value).Fits) (sink : κ) :
    (unsigned width value).write.run sink = (.error (.valueOutOfRange value width), sink) := by
  rw [write, Sink.writeUnsigned, narrow_eq, if_neg (mt fits_unsigned_iff.2 h)]
  rfl

variable [LawfulSink κ] {item : Item} {sink after : κ} {error : StreamError}

theorem run_write_of_le (hfits : item.Fits) (hroom : item.bytes.length ≤ Sink.capacity sink) :
    item.write.run sink = (.ok (), LawfulSink.append item.bytes sink) := by
  rw [write_of_fits hfits]
  exact Sink.run_writeBytes_of_le hroom

theorem run_write_of_lt (hfits : item.Fits) (hfull : Sink.capacity sink < item.bytes.length) :
    item.write.run sink =
      (.error (.overflow item.bytes.length (Sink.capacity sink)), sink) := by
  rw [write_of_fits hfits]
  exact Sink.run_writeBytes_of_lt hfull

theorem run_write_of_refused (h : item.Refused (Sink.capacity sink) error) :
    item.write.run sink = (.error error, sink) := by
  cases h with
  | outOfRange hrange => exact run_write_of_not_fits hrange sink
  | noRoom hfits hfull => exact run_write_of_lt hfits hfull

/-- An item is written or refused. -/
theorem fits_or_refused (item : Item) (capacity : Nat) :
    item.Fits ∧ item.bytes.length ≤ capacity ∨ ∃ error, item.Refused capacity error := by
  by_cases hfits : item.Fits
  · rcases Nat.lt_or_ge capacity item.bytes.length with hfull | hroom
    · exact .inr ⟨_, .noRoom hfits hfull⟩
    · exact .inl ⟨hfits, hroom⟩
  · cases item with
    | unsigned width value => exact .inr ⟨_, .outOfRange hfits⟩
    | _ => exact absurd trivial hfits

/-- A write fails for one of the two reasons, and then the sink stays as it was. -/
theorem run_write_eq_error_iff :
    item.write.run sink = (.error error, after) ↔
      after = sink ∧ item.Refused (Sink.capacity sink) error := by
  constructor
  · intro h
    rcases item.fits_or_refused (Sink.capacity sink) with ⟨hfits, hroom⟩ | ⟨error, hrefused⟩
    · rw [run_write_of_le hfits hroom] at h
      cases h
    · rw [run_write_of_refused hrefused] at h
      cases h
      exact ⟨rfl, hrefused⟩
  · rintro ⟨rfl, hrefused⟩
    exact run_write_of_refused hrefused

end Item

/-! ## Reading -/

namespace ItemType

open Source

variable {σ : Type} [Source σ] {type : ItemType} {source after : σ} {item : Item}

theorem takes_read (type : ItemType) : (type.read : Reading σ Item).Takes type.length := by
  cases type with
  | uint8 => exact takes_readUInt8.map _
  | int8 => exact takes_readInt8.map _
  | int16 => exact takes_readInt16.map _
  | uint16 => exact takes_readUInt16.map _
  | int32 => exact takes_readInt32.map _
  | int64 => exact takes_readInt64.map _
  | float32 => exact takes_readUInt32.map _
  | float64 => exact takes_readUInt64.map _
  | unsigned width => exact (takes_readUnsigned width).map _
  | raw length => exact (takes_readBytes length).map _

/-- A read makes items of the values of one kind, and each value stands for the bytes that it was
read from. -/
theorem map_read_eq_ok_iff {α : Type} {make : α → Item} {reading : Reading σ α}
    (hmake : ∀ item : Item, item.type = type ↔ ∃ value, make value = item)
    (hreading : ∀ value, reading.run source = (.ok value, after) ↔ (make value).Fits ∧
      take type.length source = (.ok (make value).bytes, after)) :
    (make <$> reading).run source = (.ok item, after) ↔
      item.type = type ∧ item.Fits ∧ take type.length source = (.ok item.bytes, after) := by
  rw [Reading.map_eq_ok_iff, hmake]
  constructor
  · rintro ⟨value, hread, rfl⟩
    exact ⟨⟨value, rfl⟩, (hreading value).1 hread⟩
  · rintro ⟨⟨value, rfl⟩, hbytes⟩
    exact ⟨value, (hreading value).2 hbytes, rfl⟩

/-- Words of any value fit. -/
theorem map_readWord_eq_ok_iff {α : Type} {make : α → Item} {reading : Reading σ α}
    {toNat : α → Nat} (hmake : ∀ item : Item, item.type = type ↔ ∃ value, make value = item)
    (hfits : ∀ value, (make value).Fits)
    (hbytes : ∀ value, (make value).bytes = encode type.length (toNat value))
    (hreading : ∀ value, reading.run source = (.ok value, after) ↔
      take type.length source = (.ok (encode type.length (toNat value)), after)) :
    (make <$> reading).run source = (.ok item, after) ↔
      item.type = type ∧ item.Fits ∧ take type.length source = (.ok item.bytes, after) := by
  apply map_read_eq_ok_iff hmake
  intro value
  rw [hreading, hbytes]
  exact (and_iff_right (hfits value)).symm

/-- A read gives exactly the item of its type that stands for the bytes that are taken. -/
theorem read_eq_ok_iff :
    type.read.run source = (.ok item, after) ↔
      item.type = type ∧ item.Fits ∧ take type.length source = (.ok item.bytes, after) := by
  cases type with
  | uint8 =>
    exact map_readWord_eq_ok_iff (fun item => by cases item <;> simp [Item.type])
      (fun _ => trivial) Item.bytes_uint8 fun _ => readUInt8_eq_ok_iff
  | int8 =>
    exact map_readWord_eq_ok_iff (fun item => by cases item <;> simp [Item.type])
      (fun _ => trivial) Item.bytes_int8 fun _ => readInt8_eq_ok_iff
  | int16 =>
    exact map_readWord_eq_ok_iff (fun item => by cases item <;> simp [Item.type])
      (fun _ => trivial) Item.bytes_int16 fun _ => readInt16_eq_ok_iff
  | uint16 =>
    exact map_readWord_eq_ok_iff (fun item => by cases item <;> simp [Item.type])
      (fun _ => trivial) Item.bytes_uint16 fun _ => readUInt16_eq_ok_iff
  | int32 =>
    exact map_readWord_eq_ok_iff (fun item => by cases item <;> simp [Item.type])
      (fun _ => trivial) Item.bytes_int32 fun _ => readInt32_eq_ok_iff
  | int64 =>
    exact map_readWord_eq_ok_iff (fun item => by cases item <;> simp [Item.type])
      (fun _ => trivial) Item.bytes_int64 fun _ => readInt64_eq_ok_iff
  | float32 =>
    exact map_readWord_eq_ok_iff (fun item => by cases item <;> simp [Item.type])
      (fun _ => trivial) Item.bytes_float32 fun _ => readUInt32_eq_ok_iff
  | float64 =>
    exact map_readWord_eq_ok_iff (fun item => by cases item <;> simp [Item.type])
      (fun _ => trivial) Item.bytes_float64 fun _ => readUInt64_eq_ok_iff
  | unsigned width =>
    apply map_read_eq_ok_iff
    · intro item
      cases item <;> simp [Item.type, eq_comm]
    · intro value
      rw [readUnsigned_eq_ok_iff, ← Item.fits_unsigned_iff]
      apply and_congr_right
      intro hfits
      rw [Item.bytes_unsigned hfits]
      rfl
  | raw length =>
    rw [read, Reading.map_eq_ok_iff]
    constructor
    · rintro ⟨bytes, htake, rfl⟩
      exact ⟨congrArg raw (length_of_take (congrArg Prod.fst htake)), trivial, htake⟩
    · rintro ⟨htype, -, htake⟩
      cases item with
      | raw bytes => exact ⟨bytes, htake, rfl⟩
      | _ => cases htype

end ItemType

/-! ## Sequences -/

/-- Takes the steps one after another and goes on after those that fail: the values that the others
gave, and the state in the end. -/
def tryEach {σ α : Type} : List (ExceptT StreamError (StateM σ) α) → σ → List α × σ
  | [], state => ([], state)
  | step :: steps, state =>
    match step.run state with
    | (.ok value, after) =>
      let (values, last) := tryEach steps after
      (value :: values, last)
    | (.error _, after) => tryEach steps after

section Sequences

variable {σ α : Type} {step : ExceptT StreamError (StateM σ) α}
variable {steps : List (ExceptT StreamError (StateM σ) α)} {state after : σ}

theorem tryEach_cons_of_ok {value : α} (h : step.run state = (.ok value, after)) :
    tryEach (step :: steps) state =
      (value :: (tryEach steps after).1, (tryEach steps after).2) := by
  rw [tryEach, h]

theorem tryEach_cons_of_error {error : StreamError} (h : step.run state = (.error error, after)) :
    tryEach (step :: steps) state = tryEach steps after := by
  rw [tryEach, h]

/-- What every step keeps, be it successful or not, a sequence keeps. -/
theorem tryEach_induction {motive : List α → σ → Prop}
    (hok : ∀ step ∈ steps, ∀ values state value after, motive values state →
      step.run state = (.ok value, after) → motive (values ++ [value]) after)
    (herror : ∀ step ∈ steps, ∀ values state error after, motive values state →
      step.run state = (.error error, after) → motive values after)
    {earlier : List α} (hstart : motive earlier state) :
    motive (earlier ++ (tryEach steps state).1) (tryEach steps state).2 := by
  -- The values so far vary, since each step that succeeds adds its own to them.
  induction steps generalizing earlier state with
  | nil =>
    rw [tryEach, List.append_nil]
    exact hstart
  | cons step steps ih =>
    have hrest : ∀ {earlier state}, motive earlier state →
        motive (earlier ++ (tryEach steps state).1) (tryEach steps state).2 :=
      ih (fun other hother => hok other (List.mem_cons_of_mem _ hother))
        (fun other hother => herror other (List.mem_cons_of_mem _ hother))
    rcases hrun : step.run state with ⟨outcome, after⟩
    cases outcome with
    | ok value =>
      have hnext := hrest (hok step List.mem_cons_self _ _ _ _ hstart hrun)
      rw [tryEach_cons_of_ok hrun]
      rw [List.append_assoc, List.singleton_append] at hnext
      exact hnext
    | error error =>
      rw [tryEach_cons_of_error hrun]
      exact hrest (herror step List.mem_cons_self _ _ _ _ hstart hrun)

end Sequences

end RecordCodec
