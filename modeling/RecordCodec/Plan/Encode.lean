import RecordCodec.Plan.Validate
import RecordCodec.Stream.Sink

/-!
# Writing by a plan

Values are written step by step, after all of them have been checked.
-/

namespace RecordCodec

/-- A computation that writes values and may fail. -/
abbrev Encoding (κ : Type) := ExceptT CodecError (StateM κ)

namespace Encoding

variable {κ α : Type}

def ofWriting (writing : Writing κ α) : Encoding κ α :=
  ExceptT.mk fun sink =>
    let (outcome, sink) := writing.run sink
    (outcome.mapError CodecError.stream, sink)

/-- An outcome that does not depend on the sink. -/
def ofExcept (outcome : Except CodecError α) : Encoding κ α :=
  ExceptT.mk (pure outcome)

end Encoding

variable {κ : Type} [Sink κ]

/-- Writes a text or byte field: two bytes of length, then the bytes. -/
def writeVariable (record field : String) (bytes : List UInt8) : Encoding κ Unit :=
  if maxVariableLength < bytes.length then
    throw (.invalidValue record field (.tooLong bytes.length maxVariableLength))
  else do
    Encoding.ofWriting (Sink.writeUInt16 bytes.length.toUInt16)
    Encoding.ofWriting (Sink.writeBytes bytes)

def Leaf.encode (record field : String) (leaf : Leaf) (value : Value) : Encoding κ Unit :=
  match leaf, value with
  | int8, .int8 value => .ofWriting (Sink.writeInt8 value)
  | int16, .int16 value => .ofWriting (Sink.writeInt16 value)
  | int32, .int32 value => .ofWriting (Sink.writeInt32 value)
  | int64, .int64 value => .ofWriting (Sink.writeInt64 value)
  | float32, .float32 bits => .ofWriting (Sink.writeUInt32 bits)
  | float64, .float64 bits => .ofWriting (Sink.writeUInt64 bits)
  | char16, .char16 unit => .ofWriting (Sink.writeUInt16 unit)
  | unsigned32 width, .int32 value => .ofWriting (Sink.writeUnsigned value.toInt64 width)
  | unsigned64 width, .int64 value => .ofWriting (Sink.writeUnsigned value width)
  | enum variants, .enum ordinal =>
    if ordinal < UInt8.size then
      .ofWriting (Sink.writeUInt8 ordinal.toUInt8)
    else
      throw (.ordinalOutOfRange record field ordinal variants)
  | text, .text string => writeVariable record field (Utf8.encode string)
  | bytes, .bytes string => writeVariable record field string
  | leaf, value => throw (kindMismatch record field leaf.valueName value)

section

variable {ρ : Type} (planOf : ρ → Plan ρ)

mutual

def encodeStep (record : String) (step : Step ρ) : Value → Encoding κ Unit
  | .record values =>
    match step.wire with
    | .nested target => encodeSteps (planOf target).name (planOf target).steps values
    | .leaf kind => kind.encode record step.field (.record values)
  | value =>
    match step.wire with
    | .nested _ => throw (kindMismatch record step.field step.wire.valueName value)
    | .leaf kind => kind.encode record step.field value

def encodeSteps (record : String) : List (Step ρ) → List Value → Encoding κ Unit
  | step :: steps, value :: values => do
    encodeStep record step value
    encodeSteps record steps values
  | _, _ => return

end

end

/-- Checks the values of the root record, then writes them; gives their written length. -/
def Program.encode (program : Program) (limits : Limits) (values : List Value) :
    Encoding κ Nat := do
  let length ← Encoding.ofExcept (program.encodedLength limits values)
  encodeSteps program.plan program.root.name program.root.steps values
  return length

end RecordCodec
