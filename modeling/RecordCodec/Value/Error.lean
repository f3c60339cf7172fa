import RecordCodec.Layout.Schema
import RecordCodec.Stream.Basic

/-!
# Errors and limits

Why a codec cannot be made, or why a record cannot be read, checked or written with it; and the
limits that bound what a codec accepts.
-/

namespace RecordCodec

/-- Why a value does not fit its field. -/
inductive ValueFault where
  | unsignedOutOfRange (width : Width) (value : Int64)
  | tooLong (length limit : Nat)
  | typeMismatch (expected found : String)
  deriving DecidableEq

def ValueFault.message : ValueFault → String
  | unsignedOutOfRange width value => s!"value {value.toInt} does not fit in {width.name}"
  | tooLong length limit => s!"length {length} exceeds maximum {limit}"
  | typeMismatch expected found => s!"expected {expected} but got {found}"

inductive LimitKind where
  | nestingDepth
  | variableLength
  deriving DecidableEq

def LimitKind.name : LimitKind → String
  | nestingDepth => "nesting depth"
  | variableLength => "variable length"

inductive CodecError where
  | schema (error : SchemaError)
  | stream (error : StreamError)
  /-- A fixed layout was asked for, but the record reaches a cycle. -/
  | cyclicRecord (record : String)
  /-- A fixed layout was asked for, but the record's length varies. -/
  | noFixedLayout (record : String)
  | insufficientData (record : String) (needed available : Nat)
  | insufficientCapacity (record : String) (needed available : Nat)
  | ordinalOutOfRange (record field : String) (ordinal variants : Nat)
  | invalidValue (record field : String) (fault : ValueFault)
  | invalidUtf8 (record field : String)
  /-- A value of the wrong kind, outside any field. -/
  | valueMismatch (expected found : String)
  | fieldCountMismatch (record : String) (expected actual : Nat)
  | limitExceeded (kind : LimitKind) (limit actual : Nat)
  /-- The parts of a plan contradict each other. -/
  | generationFailure (record detail : String)
  deriving DecidableEq

namespace CodecError

def message : CodecError → String
  | schema error => s!"schema error: {error.message}"
  | stream error => s!"byte stream error: {error.message}"
  | cyclicRecord record => s!"record {record} nests itself and has no fixed layout"
  | noFixedLayout record => s!"record {record} has no fixed layout"
  | insufficientData record needed available =>
    s!"insufficient data for {record}: need {needed} bytes, have {available}"
  | insufficientCapacity record needed available =>
    s!"insufficient capacity for {record}: need {needed} bytes, have {available}"
  | ordinalOutOfRange record field ordinal variants =>
    s!"ordinal {ordinal} out of range for {record}.{field} ({variants} variants)"
  | invalidValue record field fault => s!"invalid value for {record}.{field}: {fault.message}"
  | invalidUtf8 record field => s!"invalid UTF-8 in {record}.{field}"
  | valueMismatch expected found => s!"expected {expected} value but got {found}"
  | fieldCountMismatch record expected actual =>
    s!"{record} expects {expected} field values, got {actual}"
  | limitExceeded kind limit actual => s!"{kind.name} limit exceeded: {actual} > {limit}"
  | generationFailure record detail => s!"codec generation failed for {record}: {detail}"

/-- The wording of the error below, for an error that only passes one on. -/
def cause : CodecError → Option String
  | schema error => some error.message
  | stream error => some error.message
  | _ => none

end CodecError

/-! ## Limits

The depth to which records that reach a cycle are nested is limited, and so is the length of text
and byte fields.
-/

/-- The greatest length that two bytes can announce. -/
def maxVariableLength : Nat := 65535

/-- What a codec accepts. -/
structure Limits where
  /-- How many records that reach a cycle may lie inside each other below the outermost. -/
  nestingDepth : Nat
  /-- The greatest length of a text or byte field. -/
  variableLength : Nat
  deriving DecidableEq

namespace Limits

/-- The limits that hold unless others are given. -/
def standard : Limits where
  nestingDepth := 64
  variableLength := maxVariableLength

def testing : Limits where
  nestingDepth := 8
  variableLength := 256

/-- No limits but those of the wire format. -/
def unlimited : Limits where
  nestingDepth := maxCount
  variableLength := maxVariableLength

/-- The greatest length of a text or byte field that the wire format allows as well. -/
def effectiveLength (limits : Limits) : Nat :=
  min limits.variableLength maxVariableLength

/-- The depth inside a nested record, from the depth around it.  Only records that reach a cycle
count; the depth of the others is bounded by their definitions. -/
def enter (limits : Limits) (cyclic : Bool) (depth : Nat) : Except CodecError Nat :=
  if cyclic then
    let next := min (depth + 1) maxCount
    if limits.nestingDepth < next then
      .error (.limitExceeded .nestingDepth limits.nestingDepth next)
    else
      .ok next
  else
    .ok depth

end Limits

end RecordCodec
