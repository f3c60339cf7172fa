import RecordCodec.Plan.Basic
import RecordCodec.Value.Basic
import RecordCodec.Value.Error
import RecordCodec.Stream.Basic

/-!
# Checking values against a plan

Values are checked before anything is written.  Checking gives the length of their written form, or
the first fault, field by field and inwards: depth, then the number of fields, then the fields.  The
lengths are added without a bound: no values in memory are so many that the sum would be cut off.
-/

namespace RecordCodec

def kindMismatch (record field expected : String) (value : Value) : CodecError :=
  .invalidValue record field (.typeMismatch expected value.kindName)

/-- The written length of an integer at an unsigned width. -/
def unsignedLength (record field : String) (width : Width) (value : Int64) :
    Except CodecError Nat :=
  match narrow value width with
  | .ok _ => .ok width.bytes
  | .error _ => .error (.invalidValue record field (.unsignedOutOfRange width value))

/-- The written length of `length` bytes of text or bytes. -/
def variableLength (record field : String) (limits : Limits) (length : Nat) :
    Except CodecError Nat :=
  if limits.effectiveLength < length then
    .error (.invalidValue record field (.tooLong length limits.effectiveLength))
  else
    .ok (2 + length)

def Leaf.encodedLength (record field : String) (limits : Limits) (leaf : Leaf) (value : Value) :
    Except CodecError Nat :=
  match leaf, value with
  | int8, .int8 _ => .ok 1
  | int16, .int16 _ => .ok 2
  | int32, .int32 _ => .ok 4
  | int64, .int64 _ => .ok 8
  | float32, .float32 _ => .ok 4
  | float64, .float64 _ => .ok 8
  | char16, .char16 _ => .ok 2
  | unsigned32 width, .int32 value => unsignedLength record field width value.toInt64
  | unsigned64 width, .int64 value => unsignedLength record field width value
  | enum variants, .enum ordinal =>
    if ordinal < variants then
      .ok 1
    else
      .error (.ordinalOutOfRange record field ordinal variants)
  | text, .text string => variableLength record field limits string.utf8ByteSize
  | bytes, .bytes string => variableLength record field limits string.length
  | leaf, value => .error (kindMismatch record field leaf.valueName value)

/-- Refuses a list of values that is not one for each field. -/
def Plan.checkCount {ρ : Type} (plan : Plan ρ) (values : List Value) : Except CodecError Unit :=
  if values.length = plan.steps.length then
    .ok ()
  else
    .error (.fieldCountMismatch plan.name plan.steps.length values.length)

variable {ρ : Type} (planOf : ρ → Plan ρ) (limits : Limits)

mutual

def stepLength (record : String) (depth : Nat) (step : Step ρ) : Value → Except CodecError Nat
  | .record values =>
    match step.wire with
    | .nested target => do
      let depth ← limits.enter (planOf target).cyclic depth
      (planOf target).checkCount values
      stepsLength (planOf target).name depth (planOf target).steps values
    | .leaf kind => kind.encodedLength record step.field limits (.record values)
  | value =>
    match step.wire with
    | .nested _ => .error (kindMismatch record step.field step.wire.valueName value)
    | .leaf kind => kind.encodedLength record step.field limits value

def stepsLength (record : String) (depth : Nat) : List (Step ρ) → List Value →
    Except CodecError Nat
  | step :: steps, value :: values => do
    let first ← stepLength record depth step value
    let rest ← stepsLength record depth steps values
    return first + rest
  | _, _ => return 0

end

/-- The written length of the values of a record, at the given depth. -/
def recordLength (record : ρ) (depth : Nat) (values : List Value) : Except CodecError Nat := do
  (planOf record).checkCount values
  stepsLength planOf limits (planOf record).name depth (planOf record).steps values

def Program.encodedLength (program : Program) (limits : Limits) (values : List Value) :
    Except CodecError Nat :=
  recordLength program.plan limits 0 0 values

end RecordCodec
