import RecordCodec.Stream.Basic

/-!
# Byte sources

A source gives its bytes in order.  One operation reads so many bytes or fails; numbers are read
big-endian on top of it.  Two sources hold their bytes: readers, and cursors, which may stand
anywhere.
-/

namespace RecordCodec

/-- A state from which bytes can be read. -/
class Source (σ : Type) where
  /-- How many bytes can still be read. -/
  remaining : σ → Nat
  /-- Reads exactly so many bytes; a failed read consumes nothing. -/
  take : Nat → σ → Except StreamError (List UInt8) × σ
  length_of_take : ∀ {count : Nat} {source : σ} {bytes : List UInt8},
    (take count source).1 = .ok bytes → bytes.length = count

/-- A computation that reads from a source and may fail, leaving the source where it failed. -/
abbrev Reading (σ : Type) := ExceptT StreamError (StateM σ)

namespace Source

variable {σ : Type} [Source σ]

def readBytes (count : Nat) : Reading σ (List UInt8) :=
  ExceptT.mk (Source.take count)

def readNat (count : Nat) : Reading σ Nat :=
  BigEndian.decode <$> readBytes count

def readUInt8 : Reading σ UInt8 := UInt8.ofNat <$> readNat 1

def readUInt16 : Reading σ UInt16 := UInt16.ofNat <$> readNat 2

def readUInt32 : Reading σ UInt32 := UInt32.ofNat <$> readNat 4

def readUInt64 : Reading σ UInt64 := UInt64.ofNat <$> readNat 8

def readInt8 : Reading σ Int8 := UInt8.toInt8 <$> readUInt8

def readInt16 : Reading σ Int16 := UInt16.toInt16 <$> readUInt16

def readInt32 : Reading σ Int32 := UInt32.toInt32 <$> readUInt32

def readInt64 : Reading σ Int64 := UInt64.toInt64 <$> readUInt64

def readUnsigned (width : Width) : Reading σ Int64 := do
  let bytes ← readBytes width.bytes
  ExceptT.mk (pure (widen bytes))

end Source

/-! ## Readers

A reader is a byte string and a position in it.  Reading past the end fails and leaves the
position where it was.
-/

/-- A byte string that has been read up to `position`. -/
structure Reader where
  data : Array UInt8
  position : Nat
  deriving DecidableEq

namespace Reader

def ofList (bytes : List UInt8) : Reader where
  data := bytes.toArray
  position := 0

def remaining (reader : Reader) : Nat :=
  reader.data.size - reader.position

def isEmpty (reader : Reader) : Bool :=
  reader.data.size ≤ reader.position

def rest (reader : Reader) : List UInt8 :=
  (reader.data.extract reader.position reader.data.size).toList

/-- The next `count` bytes and the reader past them. -/
def take (count : Nat) (reader : Reader) : Except StreamError (List UInt8) × Reader :=
  if reader.remaining < count then
    (.error (.unexpectedEnd count reader.remaining), reader)
  else
    (.ok (reader.data.extract reader.position (reader.position + count)).toList,
      { reader with position := reader.position + count })

theorem length_of_take {count : Nat} {reader : Reader} {bytes : List UInt8}
    (h : (reader.take count).1 = .ok bytes) : bytes.length = count := by
  unfold take at h
  split at h
  · cases h
  · rename_i hroom
    cases h
    rw [Array.length_toList, Array.size_extract]
    unfold remaining at hroom
    omega

instance : Source Reader where
  remaining := Reader.remaining
  take := Reader.take
  length_of_take := length_of_take

end Reader

/-! ## Cursors

A cursor is a byte string and a position that may be set anywhere, also past the end, where
nothing remains.
-/

/-- A byte string seen from `position`, which need not lie inside it. -/
structure Cursor where
  data : Array UInt8
  position : Nat
  deriving DecidableEq

namespace Cursor

def ofList (bytes : List UInt8) : Cursor where
  data := bytes.toArray
  position := 0

def seek (cursor : Cursor) (position : Nat) : Cursor :=
  { cursor with position }

/-- How many bytes lie after the position; past the end there are none. -/
def remaining (cursor : Cursor) : Nat :=
  cursor.data.size - cursor.position

/-- Fills a buffer of `count` bytes.  If fewer remain this is the end of the file, and the cursor is
left there. -/
def fill (count : Nat) (cursor : Cursor) : Except TransportFault (List UInt8) × Cursor :=
  if cursor.remaining < count then
    (.error .endOfFile, cursor.seek cursor.data.size)
  else
    (.ok (cursor.data.extract cursor.position (cursor.position + count)).toList,
      cursor.seek (cursor.position + count))

/-- The next `count` bytes and the cursor past them.  No buffer is filled for more bytes than
remain. -/
def take (count : Nat) (cursor : Cursor) : Except StreamError (List UInt8) × Cursor :=
  if cursor.remaining < count then
    (.error (.unexpectedEnd count cursor.remaining), cursor)
  else
    (cursor.fill count).map (Except.mapError .transport) id

/-- Whatever remains can be filled into a buffer. -/
theorem take_of_le {count : Nat} {cursor : Cursor} (h : count ≤ cursor.remaining) :
    cursor.take count = (.ok (cursor.data.extract cursor.position (cursor.position + count)).toList,
      cursor.seek (cursor.position + count)) := by
  rw [take, if_neg (Nat.not_lt.2 h), fill, if_neg (Nat.not_lt.2 h)]
  rfl

theorem length_of_take {count : Nat} {cursor : Cursor} {bytes : List UInt8}
    (h : (cursor.take count).1 = .ok bytes) : bytes.length = count := by
  rcases Nat.lt_or_ge cursor.remaining count with hshort | hlong
  · rw [take, if_pos hshort] at h
    cases h
  · rw [take_of_le hlong] at h
    cases h
    rw [Array.length_toList, Array.size_extract]
    unfold remaining at hlong
    omega

instance : Source Cursor where
  remaining := Cursor.remaining
  take := Cursor.take
  length_of_take := length_of_take

end Cursor

end RecordCodec
