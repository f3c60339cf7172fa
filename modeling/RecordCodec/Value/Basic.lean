/-!
# Values

A value is what one field holds, apart from any record type; a record's value is the list of the
values of its fields.
-/

namespace RecordCodec

/-- What a field holds; floats are their bits. -/
inductive Value where
  | int8 (value : Int8)
  | int16 (value : Int16)
  | int32 (value : Int32)
  | int64 (value : Int64)
  | float32 (bits : UInt32)
  | float64 (bits : UInt64)
  /-- One UTF-16 code unit. -/
  | char16 (unit : UInt16)
  /-- The place of a variant in its enum. -/
  | enum (ordinal : Nat)
  | text (text : String)
  | bytes (bytes : List UInt8)
  /-- The fields of a nested record, in order. -/
  | record (fields : List Value)

def Value.kindName : Value → String
  | int8 _ => "int8"
  | int16 _ => "int16"
  | int32 _ => "int32"
  | int64 _ => "int64"
  | float32 _ => "float32"
  | float64 _ => "float64"
  | char16 _ => "char16"
  | enum _ => "enum"
  | text _ => "text"
  | bytes _ => "bytes"
  | record _ => "nested record"

/-! ## Text as bytes

Text travels as UTF-8.  A byte string is the form of at most one text, and of one exactly if it is
well-formed UTF-8.
-/

namespace Utf8

def encode (text : String) : List UInt8 :=
  text.toByteArray.data.toList

/-- The text whose UTF-8 form is `bytes`, if they are well-formed. -/
def decode? (bytes : List UInt8) : Option String :=
  String.fromUTF8? ⟨bytes.toArray⟩

theorem decode?_encode (text : String) : decode? (encode text) = some text := by
  simp only [decode?, encode, String.fromUTF8?]
  exact dif_pos text.isValidUTF8

theorem decode?_eq_some_iff {bytes : List UInt8} {text : String} :
    decode? bytes = some text ↔ encode text = bytes := by
  constructor
  · intro h
    simp only [decode?, String.fromUTF8?] at h
    split at h
    · cases h
      rfl
    · contradiction
  · rintro rfl
    exact decode?_encode text

end Utf8

/-! ## Code units and characters

The characters of the basic plane are one code unit each; the units that are halves of a surrogate
pair are no characters.
-/

namespace Char16

/-- The code unit of a character of the basic plane. -/
def ofChar? (character : Char) : Option UInt16 :=
  if character.toNat < UInt16.size then some character.toNat.toUInt16 else none

/-- The character that a code unit stands for by itself. -/
def toChar? (unit : UInt16) : Option Char :=
  if h : unit.toUInt32.isValidChar then some ⟨unit.toUInt32, h⟩ else none

end Char16

end RecordCodec
