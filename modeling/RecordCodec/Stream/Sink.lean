import RecordCodec.Stream.Basic

/-!
# Byte sinks

A sink takes bytes in order.  One operation writes a whole string or fails; numbers are written
big-endian on top of it.  Two sinks hold what was written: buffers of a fixed length, and byte
strings that grow.
-/

namespace RecordCodec

/-- A state to which bytes can be written. -/
class Sink (κ : Type) where
  /-- How many bytes can still be written. -/
  capacity : κ → Nat
  /-- Writes all the bytes; a failed write leaves the sink as it was. -/
  put : List UInt8 → κ → Except StreamError Unit × κ

/-- A computation that writes to a sink and may fail, leaving the sink as it was then. -/
abbrev Writing (κ : Type) := ExceptT StreamError (StateM κ)

namespace Sink

variable {κ : Type} [Sink κ]

def writeBytes (bytes : List UInt8) : Writing κ Unit :=
  ExceptT.mk (Sink.put bytes)

def writeNat (count value : Nat) : Writing κ Unit :=
  writeBytes (BigEndian.encode count value)

def writeUInt8 (value : UInt8) : Writing κ Unit := writeNat 1 value.toNat

def writeUInt16 (value : UInt16) : Writing κ Unit := writeNat 2 value.toNat

def writeUInt32 (value : UInt32) : Writing κ Unit := writeNat 4 value.toNat

def writeUInt64 (value : UInt64) : Writing κ Unit := writeNat 8 value.toNat

def writeInt8 (value : Int8) : Writing κ Unit := writeUInt8 value.toUInt8

def writeInt16 (value : Int16) : Writing κ Unit := writeUInt16 value.toUInt16

def writeInt32 (value : Int32) : Writing κ Unit := writeUInt32 value.toUInt32

def writeInt64 (value : Int64) : Writing κ Unit := writeUInt64 value.toUInt64

/-- Writes `value` as an unsigned number of the given width, if it fits. -/
def writeUnsigned (value : Int64) (width : Width) : Writing κ Unit := do
  let bytes ← ExceptT.mk (pure (narrow value width))
  writeBytes bytes

end Sink

/-! ## Buffers

A buffer is a byte string of fixed length that is overwritten from the front.  It never grows:
a write that does not fit changes nothing.
-/

/-- A byte string whose first `filled` bytes have been written. -/
structure Buffer where
  contents : Array UInt8
  filled : Nat
  deriving DecidableEq

namespace Buffer

/-- An unwritten buffer of `length` zero bytes. -/
def zeroed (length : Nat) : Buffer where
  contents := Array.replicate length 0
  filled := 0

def capacity (buffer : Buffer) : Nat :=
  buffer.contents.size - buffer.filled

def written (buffer : Buffer) : List UInt8 :=
  (buffer.contents.extract 0 buffer.filled).toList

/-- The byte string with `bytes` laid over it from `position` on. -/
def overwrite (contents : Array UInt8) (position : Nat) : List UInt8 → Array UInt8
  | [] => contents
  | byte :: bytes => overwrite (contents.setIfInBounds position byte) (position + 1) bytes

/-- Writes `bytes` after those written so far, if they fit. -/
def put (bytes : List UInt8) (buffer : Buffer) : Except StreamError Unit × Buffer :=
  let capacity := buffer.capacity
  if capacity < bytes.length then
    (.error (.overflow bytes.length capacity), buffer)
  else
    match buffer with
    | { contents, filled } =>
      (.ok (),
        { contents := overwrite contents filled bytes, filled := filled + bytes.length })

instance : Sink Buffer where
  capacity := Buffer.capacity
  put := Buffer.put

end Buffer

/-! ## Growing byte strings

A byte string that grows at its end, up to the longest byte string there can be.
-/

/-- The greatest length of a byte string. -/
def maxStringLength : Nat := Int64.maxValue.toInt.toNat

/-- A byte string that is written at its end. -/
structure Growing where
  bytes : Array UInt8
  deriving DecidableEq

namespace Growing

def empty : Growing where
  bytes := #[]

def written (output : Growing) : List UInt8 :=
  output.bytes.toList

def capacity (output : Growing) : Nat :=
  maxStringLength - output.bytes.size

/-- Writes `bytes` at the end, if the string may grow so far. -/
def put (bytes : List UInt8) (output : Growing) : Except StreamError Unit × Growing :=
  let capacity := output.capacity
  if capacity < bytes.length then
    (.error (.overflow bytes.length capacity), output)
  else
    match output with
    | { bytes := before } => (.ok (), { bytes := before.appendList bytes })

instance : Sink Growing where
  capacity := Growing.capacity
  put := Growing.put

end Growing

end RecordCodec
