import RecordCodec.Stream.Source
import RecordCodec.Stream.Sink

/-!
# Items

An item is what one typed read gives and one typed write takes: a number of some type, or a byte
string of some length.
-/

namespace RecordCodec

inductive ItemType where
  | uint8
  | int8
  | int16
  | uint16
  | int32
  | int64
  | float32
  | float64
  | unsigned (width : Width)
  | raw (length : Nat)
  deriving DecidableEq

/-- A number or a byte string that is read or written in one step; floats are their bits. -/
inductive Item where
  | uint8 (value : UInt8)
  | int8 (value : Int8)
  | int16 (value : Int16)
  | uint16 (value : UInt16)
  | int32 (value : Int32)
  | int64 (value : Int64)
  | float32 (bits : UInt32)
  | float64 (bits : UInt64)
  | unsigned (width : Width) (value : Int64)
  | raw (bytes : List UInt8)
  deriving DecidableEq

namespace Item

/-- The type under which an item reads back. -/
def type : Item → ItemType
  | uint8 _ => .uint8
  | int8 _ => .int8
  | int16 _ => .int16
  | uint16 _ => .uint16
  | int32 _ => .int32
  | int64 _ => .int64
  | float32 _ => .float32
  | float64 _ => .float64
  | unsigned width _ => .unsigned width
  | raw bytes => .raw bytes.length

def write {κ : Type} [Sink κ] : Item → Writing κ Unit
  | uint8 value => Sink.writeUInt8 value
  | int8 value => Sink.writeInt8 value
  | int16 value => Sink.writeInt16 value
  | uint16 value => Sink.writeUInt16 value
  | int32 value => Sink.writeInt32 value
  | int64 value => Sink.writeInt64 value
  | float32 bits => Sink.writeUInt32 bits
  | float64 bits => Sink.writeUInt64 bits
  | unsigned width value => Sink.writeUnsigned value width
  | raw bytes => Sink.writeBytes bytes

end Item

def ItemType.read {σ : Type} [Source σ] : ItemType → Reading σ Item
  | uint8 => Item.uint8 <$> Source.readUInt8
  | int8 => Item.int8 <$> Source.readInt8
  | int16 => Item.int16 <$> Source.readInt16
  | uint16 => Item.uint16 <$> Source.readUInt16
  | int32 => Item.int32 <$> Source.readInt32
  | int64 => Item.int64 <$> Source.readInt64
  | float32 => Item.float32 <$> Source.readUInt32
  | float64 => Item.float64 <$> Source.readUInt64
  | unsigned width => Item.unsigned width <$> Source.readUnsigned width
  | raw length => Item.raw <$> Source.readBytes length

end RecordCodec
