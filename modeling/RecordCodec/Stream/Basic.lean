import RecordCodec.Number.Width

/-!
# Faults and narrow numbers

What can go wrong when bytes are read or written, and the numbers in one, two or four bytes that
are refused where they do not fit.
-/

namespace RecordCodec

/-! ## Faults -/

/-- A fault of the transport below a stream, which the stream only passes on. -/
inductive TransportFault where
  | notFound
  | permissionDenied
  | timedOut
  | brokenPipe
  | endOfFile
  | other
  deriving DecidableEq

def TransportFault.message : TransportFault → String
  | notFound => "entity not found"
  | permissionDenied => "permission denied"
  | timedOut => "timed out"
  | brokenPipe => "broken pipe"
  | endOfFile => "unexpected end of file"
  | other => "other error"

inductive StreamError where
  /-- More bytes were asked for than the source holds. -/
  | unexpectedEnd (requested available : Nat)
  /-- More bytes were written than the sink has room for. -/
  | overflow (attempted capacity : Nat)
  /-- The number is negative or too large for the width. -/
  | valueOutOfRange (value : Int64) (width : Width)
  /-- No unsigned width has this many bytes. -/
  | invalidWidth (length : Nat)
  /-- The transport failed. -/
  | transport (fault : TransportFault)
  deriving DecidableEq

def StreamError.message : StreamError → String
  | unexpectedEnd requested available =>
    s!"attempted to read {requested} bytes but only {available} bytes available"
  | overflow attempted capacity =>
    s!"attempted to write {attempted} bytes but only {capacity} bytes of capacity remain"
  | valueOutOfRange value width =>
    s!"value {value.toInt} cannot be represented as {width.name}"
  | invalidWidth length =>
    s!"invalid unsigned width of {length} bytes, expected 1, 2 or 4"
  | transport fault => s!"transport error: {fault.message}"

/-! ## Narrowing and widening

A 64-bit integer is narrowed to the bytes of an unsigned width, and widened from them again.  Both
ways lead through four bytes that hold an unsigned word, of which those of the width are the last.
Narrowing refuses what the width cannot hold, widening refuses a string of any other length.
-/

/-- The unsigned word that is equal to `value`, if there is one. -/
def word? (value : Int64) : Option UInt32 :=
  if 0 ≤ value.toInt ∧ value.toInt < UInt32.size then
    some (UInt32.ofNat value.toInt.toNat)
  else
    none

/-- A number in four bytes, most significant first, that is small enough for the width. -/
structure Narrowed where
  buffer : Vector UInt8 4
  width : Width
  deriving DecidableEq

namespace Narrowed

/-- The bytes of the width, which end the buffer. -/
def bytes (narrowed : Narrowed) : List UInt8 :=
  narrowed.buffer.toList.drop (4 - narrowed.width.bytes)

/-- The low word of `value`, refused unless it is the value and the width can hold it. -/
def ofInt64 (value : Int64) (width : Width) : Except StreamError Narrowed :=
  if (word? value).any (·.toNat ≤ width.maxValue) then
    .ok {
      buffer := ⟨(BigEndian.encode 4 value.toUInt64.toUInt32.toNat).toArray, by simp⟩
      width }
  else
    .error (.valueOutOfRange value width)

end Narrowed

/-- The bytes of `value` at `width`, refused if the width cannot hold it. -/
def narrow (value : Int64) (width : Width) : Except StreamError (List UInt8) :=
  (Narrowed.ofInt64 value width).map Narrowed.bytes

/-- The unsigned number that one, two or four bytes spell: with zeros before them they are the four
bytes of a word. -/
def widen (bytes : List UInt8) : Except StreamError Int64 :=
  match Width.ofBytes? bytes.length with
  | some width =>
    let buffer := List.replicate (4 - width.bytes) 0 ++ bytes
    .ok (UInt32.ofNat (BigEndian.decode buffer)).toUInt64.toInt64
  | none => .error (.invalidWidth bytes.length)

end RecordCodec
