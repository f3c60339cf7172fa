import RecordCodec.Host.Declaration
import RecordCodec.Value.Basic
import RecordCodec.Value.Error

/-!
# Typed data

A datum is what a declared field holds.  It is more than its value: an enum datum is one of the
variants of its enum, a record datum has one datum for each declared field.  Every datum has a
value; a value has a datum of a type only if it fits the type.
-/

namespace RecordCodec

/-- What a declared field holds; floats are their bits. -/
inductive Datum where
  | int8 (value : Int8)
  | int16 (value : Int16)
  | int32 (value : Int32)
  | int64 (value : Int64)
  | float32 (bits : UInt32)
  | float64 (bits : UInt64)
  | char16 (unit : UInt16)
  | bool (value : Bool)
  | text (string : String)
  | bytes (string : List UInt8)
  /-- A choice among the variants of an enum. -/
  | enum (variants : Nat) (choice : Fin variants)
  | record (members : List Datum)
  /-- A value of a field without a declared type. -/
  | plain (value : Value)

mutual

def Datum.toValue : Datum → Value
  | int8 value => .int8 value
  | int16 value => .int16 value
  | int32 value => .int32 value
  | int64 value => .int64 value
  | float32 bits => .float32 bits
  | float64 bits => .float64 bits
  | char16 unit => .char16 unit
  | bool value => .int8 (if value then 1 else 0)
  | text string => .text string
  | bytes string => .bytes string
  | enum _ choice => .enum choice
  | record members => .record (Datum.toValues members)
  | plain value => value

def Datum.toValues : List Datum → List Value
  | [] => []
  | datum :: data => datum.toValue :: Datum.toValues data

end

/-- The error of a conversion, told of the field it was for. -/
def CodecError.atField (record field : String) : CodecError → CodecError
  | valueMismatch expected found => invalidValue record field (.typeMismatch expected found)
  | error => error

/-- Refuses a list of values that is not of the expected length. -/
def checkFieldCount (record : String) (expected : Nat) (values : List Value) :
    Except CodecError Unit :=
  if values.length = expected then
    .ok ()
  else
    .error (.fieldCountMismatch record expected values.length)

def FieldType.ofLeafValue {n : Nat} (type : FieldType n) (value : Value) :
    Except CodecError Datum :=
  match type, value with
  | int8, .int8 value => .ok (.int8 value)
  | int16, .int16 value => .ok (.int16 value)
  | int32, .int32 value => .ok (.int32 value)
  | int64, .int64 value => .ok (.int64 value)
  | float32, .float32 bits => .ok (.float32 bits)
  | float64, .float64 bits => .ok (.float64 bits)
  | char16, .char16 unit => .ok (.char16 unit)
  | text, .text string => .ok (.text string)
  | bytes, .bytes string => .ok (.bytes string)
  | enum variants, .enum ordinal =>
    if h : ordinal < variants then
      .ok (.enum variants ⟨ordinal, h⟩)
    else
      .error (.valueMismatch "enum ordinal" "out-of-range ordinal")
  | type, value => .error (.valueMismatch type.kind.name value.kindName)

section

variable {n : Nat} (types : TypeTable n)

mutual

def FieldType.ofValue (type : FieldType n) : Value → Except CodecError Datum
  | .record values =>
    match type.unboxed with
    | .record record =>
      match types record with
      | .plain _ => .ok (.record (values.map .plain))
      | .declared declaration => do
        checkFieldCount declaration.name declaration.members.length values
        return .record (← Member.ofValues declaration.name declaration.members values)
    | type => type.ofLeafValue (.record values)
  | value => type.unboxed.ofLeafValue value

def Member.ofValues (record : String) : List (Member n) → List Value →
    Except CodecError (List Datum)
  | [], _ => return []
  | _ :: _, [] => throw (.valueMismatch "field value" "end of record")
  | member :: members, value :: values => do
    let datum ← (FieldType.ofValue member.type value).mapError (.atField record member.name)
    let data ← Member.ofValues record members values
    return datum :: data

end

end

/-- The data of a record of the given type that has the given values. -/
def TypeTable.ofValues {n : Nat} (types : TypeTable n) (record : RecordId n)
    (values : List Value) : Except CodecError (List Datum) :=
  match types record with
  | .plain _ => .ok (values.map .plain)
  | .declared declaration => do
    checkFieldCount declaration.name declaration.members.length values
    Member.ofValues types declaration.name declaration.members values

/-- The values of a record that are handed out one by one. -/
structure RecordValues where
  record : String
  pending : List Value

namespace RecordValues

def start (record : String) (values : List Value) (fields : Nat) :
    Except CodecError RecordValues := do
  checkFieldCount record fields values
  return { record, pending := values }

/-- Hands out the next value as a datum of the given type; a value that does not fit is gone. -/
def take {n : Nat} (types : TypeTable n) (type : FieldType n) (field : String) :
    ExceptT CodecError (StateM RecordValues) Datum := do
  let values ← get
  match values.pending with
  | [] => throw (.valueMismatch "field value" "end of record")
  | value :: pending =>
    set { values with pending }
    ExceptT.mk (pure ((type.ofValue types value).mapError (.atField values.record field)))

end RecordValues

end RecordCodec
