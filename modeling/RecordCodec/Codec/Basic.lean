import RecordCodec.Plan.Compile
import RecordCodec.Plan.Decode
import RecordCodec.Plan.Encode
import RecordCodec.Host.Datum
import RecordCodec.Stream.Source
import RecordCodec.Stream.Sink
import RecordCodec.Text.Quoted

/-!
# Core codecs and typed codecs

A core codec reads and writes the values of one record type by a compiled program, within limits.
A typed codec reads and writes the data of the type through a core codec.
-/

namespace RecordCodec

/-! ## Core codecs -/

/-- The program of a record type and the limits under which it runs. -/
structure CoreCodec (n : Nat) where
  record : RecordId n
  program : Program
  limits : Limits

namespace CoreCodec

variable {n : Nat}

/-- Makes the core codec of a schema; the schemas of nested records come from the registry. -/
def generate (catalog : Catalog n) (schema : Schema n) (limits : Limits) :
    Generation n (CoreCodec n) := do
  let program ← Program.compile catalog schema
  return { record := schema.record, program, limits }

def recordName (core : CoreCodec n) : String :=
  core.program.root.name

def fixedSize (core : CoreCodec n) : Option Nat :=
  core.program.root.fixedSize

/-- Reads the values of a record; a short source is noticed where it ends. -/
def decodeUnchecked {σ : Type} [Source σ] (core : CoreCodec n) : Decoding σ (List Value) :=
  core.program.decodeUnchecked core.limits

/-- Reads the values of a record, unless the source is shorter than the fixed size. -/
def decodeChecked {σ : Type} [Source σ] (core : CoreCodec n) : Decoding σ (List Value) :=
  core.program.decodeChecked core.limits

def encodedLength (core : CoreCodec n) (values : List Value) : Except CodecError Nat :=
  core.program.encodedLength core.limits values

/-- Checks the values and writes them; gives their written length. -/
def encode {κ : Type} [Sink κ] (core : CoreCodec n) (values : List Value) : Encoding κ Nat :=
  core.program.encode core.limits values

end CoreCodec

/-! ## Typed codecs

A fixed codec knows the size of every record and compares it with what the source holds or the sink
has room for before it starts; a dynamic codec notices the end of either where it comes.
-/

/-- A core codec that several typed codecs share, known by the cache that made it and its number
there. -/
structure SharedCore (n : Nat) where
  cache : Nat
  serial : Nat
  core : CoreCodec n

/-- Which of the two codecs of a record is asked for. -/
inductive CodecMode where
  | fixed
  | dynamic
  deriving DecidableEq

/-- A codec without a size known beforehand. -/
structure DynamicCodec (n : Nat) where
  shared : SharedCore n

namespace DynamicCodec

variable {n : Nat}

def core (codec : DynamicCodec n) : CoreCodec n :=
  codec.shared.core

def decode {σ : Type} [Source σ] (types : TypeTable n) (codec : DynamicCodec n) :
    Decoding σ (List Datum) := do
  let values ← codec.core.decodeUnchecked
  Decoding.ofExcept (types.ofValues codec.core.record values)

def encode {κ : Type} [Sink κ] (codec : DynamicCodec n) (data : List Datum) :
    Encoding κ Unit := do
  let _ ← codec.core.encode (Datum.toValues data)
  return

end DynamicCodec

/-- A codec whose records all have one size. -/
structure FixedCodec (n : Nat) where
  shared : SharedCore n
  size : Nat

namespace FixedCodec

variable {n : Nat}

def core (codec : FixedCodec n) : CoreCodec n :=
  codec.shared.core

def ofCore (shared : SharedCore n) : Except CodecError (FixedCodec n) :=
  match shared.core.fixedSize with
  | some size => .ok { shared, size }
  | none => .error (.noFixedLayout shared.core.recordName)

/-- Reads a record, unless the source is too short. -/
def decode {σ : Type} [Source σ] (types : TypeTable n) (codec : FixedCodec n) :
    Decoding σ (List Datum) := do
  let available ← Decoding.remaining
  if available < codec.size then
    throw (.insufficientData codec.core.recordName codec.size available)
  let values ← codec.core.decodeChecked
  Decoding.ofExcept (types.ofValues codec.core.record values)

/-- Writes a record, unless the sink has too little room. -/
def encode {κ : Type} [Sink κ] (codec : FixedCodec n) (data : List Datum) :
    Encoding κ Unit := do
  let available := Sink.capacity (← get)
  if available < codec.size then
    throw (.insufficientCapacity codec.core.recordName codec.size available)
  let _ ← codec.core.encode (Datum.toValues data)
  return

end FixedCodec

inductive Codec (n : Nat) where
  | fixed (codec : FixedCodec n)
  | dynamic (codec : DynamicCodec n)

namespace Codec

variable {n : Nat}

def shared : Codec n → SharedCore n
  | fixed codec => codec.shared
  | dynamic codec => codec.shared

def core (codec : Codec n) : CoreCodec n :=
  codec.shared.core

def mode : Codec n → CodecMode
  | fixed _ => .fixed
  | dynamic _ => .dynamic

def sizeHint : Codec n → Option Nat
  | fixed codec => some codec.size
  | dynamic _ => none

/-- Whether two codecs share their core. -/
def sameInstance (left right : Codec n) : Bool :=
  left.shared.cache == right.shared.cache && left.shared.serial == right.shared.serial

def decode {σ : Type} [Source σ] (types : TypeTable n) : Codec n → Decoding σ (List Datum)
  | fixed codec => codec.decode types
  | dynamic codec => codec.decode types

def encode {κ : Type} [Sink κ] : Codec n → List Datum → Encoding κ Unit
  | fixed codec, data => codec.encode data
  | dynamic codec, data => codec.encode data

def encodedLength (codec : Codec n) (data : List Datum) : Except CodecError Nat :=
  codec.core.encodedLength (Datum.toValues data)

def encodeToBytes (codec : Codec n) (data : List Datum) : Except CodecError (List UInt8) := do
  let values := Datum.toValues data
  let _ ← codec.core.encodedLength values
  let (outcome, output) := (codec.core.encode values).run Growing.empty
  let _ ← outcome
  return output.written

/-- Reads a record from the front of `bytes`; gives it with the number of bytes that it took. -/
def decodeFromBytes (types : TypeTable n) (codec : Codec n) (bytes : List UInt8) :
    Option (Except CodecError (List Datum × Nat)) := do
  let (outcome, reader) ← (codec.decode types).run (Reader.ofList bytes)
  return outcome.map (·, reader.position)

/-- A codec in one line: its kind, its record and its size. -/
def summary : Codec n → String
  | fixed codec =>
    let name := Quoted.quote codec.core.recordName
    let size := codec.size
    s!"FixedCodec \x7b record: {name}, size: {size} \x7d"
  | dynamic codec =>
    let name := Quoted.quote codec.core.recordName
    s!"DynamicCodec \x7b record: {name} \x7d"

end Codec

end RecordCodec
