import RecordCodec.Stream.Source
import RecordCodec.Stream.Sink

/-!
# Endpoints

An endpoint is a source or a sink whose kind is chosen when the program runs: one that holds its
bytes in memory, or one whose transport breaks.
-/

namespace RecordCodec

/-! ## Unreliable streams

The transport breaks after a given count of bytes: whatever would go beyond it fails with the
transport's fault and changes nothing, all else works as without the break.
-/

/-- A reader whose transport delivers only the first `sound` bytes. -/
structure UnreliableReader where
  reader : Reader
  sound : Nat
  fault : TransportFault

/-- A growing byte string whose transport accepts only the first `sound` bytes. -/
structure UnreliableOutput where
  output : Growing
  sound : Nat
  fault : TransportFault

instance : Source UnreliableReader where
  remaining source := source.reader.remaining
  take count source :=
    if source.sound < source.reader.position + count then
      (.error (.transport source.fault), source)
    else
      let (outcome, reader) := source.reader.take count
      (outcome, { source with reader })
  length_of_take := by
    intro count source bytes h
    split at h
    · cases h
    · exact Reader.length_of_take h

instance : Sink UnreliableOutput where
  capacity sink := sink.output.capacity
  put bytes sink :=
    if sink.sound < sink.output.bytes.size + bytes.length then
      (.error (.transport sink.fault), sink)
    else
      let (outcome, output) := sink.output.put bytes
      (outcome, { sink with output })

/-! ## Inputs -/

inductive Input where
  | reader (reader : Reader)
  | cursor (cursor : Cursor)
  | unreliable (reader : UnreliableReader)

namespace Input

/-- The place of the next byte that is read. -/
def position : Input → Nat
  | reader source => source.position
  | cursor source => source.position
  | unreliable source => source.reader.position

def remaining : Input → Nat
  | reader source => source.remaining
  | cursor source => source.remaining
  | unreliable source => Source.remaining source

def take (count : Nat) : Input → Except StreamError (List UInt8) × Input
  | reader source => (source.take count).map id Input.reader
  | cursor source => (source.take count).map id Input.cursor
  | unreliable source => (Source.take count source).map id Input.unreliable

theorem length_of_take {count : Nat} {input : Input} {bytes : List UInt8}
    (h : (input.take count).1 = .ok bytes) : bytes.length = count := by
  cases input with
  | reader source => exact Reader.length_of_take h
  | cursor source => exact Cursor.length_of_take h
  | unreliable source => exact Source.length_of_take (σ := UnreliableReader) h

instance : Source Input where
  remaining := Input.remaining
  take := Input.take
  length_of_take := length_of_take

end Input

/-! ## Outputs -/

inductive Output where
  | buffer (buffer : Buffer)
  | growing (output : Growing)
  | unreliable (output : UnreliableOutput)

namespace Output

def written : Output → List UInt8
  | buffer sink => sink.written
  | growing sink => sink.written
  | unreliable sink => sink.output.written

def capacity : Output → Nat
  | buffer sink => sink.capacity
  | growing sink => sink.capacity
  | unreliable sink => Sink.capacity sink

def put (bytes : List UInt8) : Output → Except StreamError Unit × Output
  | buffer sink => (sink.put bytes).map id Output.buffer
  | growing sink => (sink.put bytes).map id Output.growing
  | unreliable sink => (Sink.put bytes sink).map id Output.unreliable

instance : Sink Output where
  capacity := Output.capacity
  put := Output.put

end Output

end RecordCodec
