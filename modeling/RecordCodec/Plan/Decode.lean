import RecordCodec.Plan.Basic
import RecordCodec.Value.Basic
import RecordCodec.Value.Error
import RecordCodec.Stream.Source

/-!
# Reading by a plan

The steps of a plan are read in order; a nested record is read by its own plan, in place.  A record
that reaches a cycle may nest without end as far as its plan goes: what stops the descent is the
depth limit, or the end of the source.
-/

namespace RecordCodec

/-- A computation that reads values and may fail; `none` when its budget is spent. -/
abbrev Decoding (σ : Type) := ExceptT CodecError (StateT σ Option)

namespace Decoding

variable {σ α : Type}

def ofReading (reading : Reading σ α) : Decoding σ α :=
  ExceptT.mk fun source =>
    let (outcome, source) := reading.run source
    some (outcome.mapError CodecError.stream, source)

/-- An outcome that does not depend on the source. -/
def ofExcept (outcome : Except CodecError α) : Decoding σ α :=
  ExceptT.mk (pure outcome)

def exhausted : Decoding σ α :=
  ExceptT.mk failure

def remaining [Source σ] : Decoding σ Nat := do
  return Source.remaining (← get)

end Decoding

variable {σ : Type} [Source σ]

/-- Reads a text or byte field: two bytes of length, then so many bytes, if the limit allows. -/
def readVariable (limits : Limits) : Decoding σ (List UInt8) := do
  let announced ← Decoding.ofReading Source.readUInt16
  let length := announced.toNat
  if limits.effectiveLength < length then
    throw (.limitExceeded .variableLength limits.effectiveLength length)
  Decoding.ofReading (Source.readBytes length)

def Leaf.decode (record field : String) (limits : Limits) : Leaf → Decoding σ Value
  | int8 => Value.int8 <$> .ofReading Source.readInt8
  | int16 => Value.int16 <$> .ofReading Source.readInt16
  | int32 => Value.int32 <$> .ofReading Source.readInt32
  | int64 => Value.int64 <$> .ofReading Source.readInt64
  | float32 => Value.float32 <$> .ofReading Source.readUInt32
  | float64 => Value.float64 <$> .ofReading Source.readUInt64
  | char16 => Value.char16 <$> .ofReading Source.readUInt16
  | unsigned32 width => do
    let wide ← Decoding.ofReading (Source.readUnsigned width)
    if wide.toInt ≤ Int32.maxValue.toInt then
      return .int32 wide.toInt32
    else
      throw (.generationFailure record s!"{width.label} read on int32 field {field}")
  | unsigned64 width => Value.int64 <$> .ofReading (Source.readUnsigned width)
  | enum variants => do
    let byte ← Decoding.ofReading Source.readUInt8
    if byte.toNat < variants then
      return .enum byte.toNat
    else
      throw (.ordinalOutOfRange record field byte.toNat variants)
  | text => do
    match Utf8.decode? (← readVariable limits) with
    | some string => return .text string
    | none => throw (.invalidUtf8 record field)
  | bytes => Value.bytes <$> readVariable limits

section

variable {ρ : Type} (planOf : ρ → Plan ρ) (limits : Limits)

/-- Reads one field of the record named `record`, at the given depth; `nested` reads a nested
record. -/
def decodeStep (nested : ρ → (depth : Nat) → Decoding σ (List Value)) (record : String)
    (depth : Nat) (step : Step ρ) : Decoding σ Value :=
  match step.wire with
  | .leaf kind => kind.decode record step.field limits
  | .nested target => do
    let depth ← Decoding.ofExcept (limits.enter (planOf target).cyclic depth)
    Value.record <$> nested target depth

/-- Reads a record by its plan, at the given depth.  The budget is the number of records that may be
open at once. -/
def decodeRecord : (budget : Nat) → ρ → (depth : Nat) → Decoding σ (List Value)
  | 0, _, _ => .exhausted
  | budget + 1, record, depth =>
    let plan := planOf record
    plan.steps.mapM (decodeStep planOf limits (decodeRecord budget) plan.name depth)

end

namespace Program

/-- How many records may be open at once in a run that ends.  Whoever opens a record a second time
at the same depth and with as many bytes remaining never stops, and depth and consumed bytes
together take at most `nestingDepth + remaining + 1` values from the outermost record inwards. -/
def budget (program : Program) (limits : Limits) (remaining : Nat) : Nat :=
  program.plans.size * (limits.nestingDepth + remaining + 1)

/-- Reads the root record; a short source is noticed where it ends. -/
def decodeUnchecked (program : Program) (limits : Limits) : Decoding σ (List Value) := do
  let remaining ← Decoding.remaining
  decodeRecord program.plan limits (program.budget limits remaining) 0 0

/-- Reads the root record; a source shorter than its fixed size is refused before anything is
read. -/
def decodeChecked (program : Program) (limits : Limits) : Decoding σ (List Value) := do
  if let some needed := program.root.fixedSize then
    let available ← Decoding.remaining
    if available < needed then
      throw (.insufficientData program.root.name needed available)
  program.decodeUnchecked limits

end Program

end RecordCodec
