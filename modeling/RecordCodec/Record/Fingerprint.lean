import RecordCodec.Record.Definition
import RecordCodec.Digest.Blake3

/-!
# Fingerprints

The fingerprint of a record is a hash of its wire shape: the kind, variant count and override of
every field in order, with nested records written in place.  A nested record that encloses the
field is written as a reference to its depth, so cyclic records have a fingerprint too.  Names are
not part of it.
-/

namespace RecordCodec

/-- The shape written so far and the records around the current field, outermost first. -/
structure ShapeTrail (n : Nat) where
  path : List (RecordId n)
  written : Array UInt8

namespace ShapeTrail

variable {n : Nat}

def empty : ShapeTrail n where
  path := []
  written := #[]

def emit (bytes : List UInt8) (trail : ShapeTrail n) : ShapeTrail n :=
  { trail with written := trail.written.appendList bytes }

def enter (record : RecordId n) (trail : ShapeTrail n) : ShapeTrail n :=
  { trail with path := trail.path ++ [record] }

def leave (trail : ShapeTrail n) : ShapeTrail n :=
  { trail with path := trail.path.dropLast }

end ShapeTrail

namespace Fingerprint

variable {n : Nat}

/-- The low 32 bits of a count, least significant byte first. -/
def countBytes (count : Nat) : List UInt8 :=
  (BigEndian.encode 4 count).reverse

def backReference : UInt8 := 0xFF

def overrideTag : WidthOverride → UInt8
  | .none => 0
  | .asU8 => 1
  | .asU16 => 2
  | .asU32 => 3

/-- The bytes that stand for a kind, without the nested record's own shape. -/
def kindTag : FieldKind n → List UInt8
  | .int8 => [0]
  | .int16 => [1]
  | .int32 => [2]
  | .int64 => [3]
  | .float32 => [4]
  | .float64 => [5]
  | .char16 => [6]
  | .bool => [7]
  | .enum variants => 8 :: countBytes variants
  | .text => [9]
  | .bytes => [10]
  | .nested _ => [11]

def writeField (nested : RecordId n → StateT (ShapeTrail n) Option Unit) (field : FieldDef n) :
    StateT (ShapeTrail n) Option Unit := do
  modify (·.emit (kindTag field.kind))
  if let some record := field.kind.nested? then
    nested record
  modify (·.emit [overrideTag field.override])

/-- Writes the shape of `record` below the records on the path.  `none` when `depth` records
inside each other are not enough. -/
def writeRecord (catalog : Catalog n) : (depth : Nat) → RecordId n →
    StateT (ShapeTrail n) Option Unit
  | 0, _ => failure
  | depth + 1, record => do
    match (← get).path.idxOf? record with
    | some enclosing => modify (·.emit (backReference :: countBytes enclosing))
    | none =>
      let definition := catalog record
      modify (·.enter record)
      modify (·.emit (countBytes definition.fields.length))
      definition.fields.forM (writeField (writeRecord catalog depth))
      modify (·.leave)

/-- The bytes that the fingerprint of `record` is the hash of.  A record encloses itself as a
reference only, so `n + 1` records inside each other are enough. -/
def shapeBytes (catalog : Catalog n) (record : RecordId n) : List UInt8 :=
  match writeRecord catalog (n + 1) record ShapeTrail.empty with
  | some (_, trail) => trail.written.toList
  | none => []

end Fingerprint

/-- The first eight bytes of the hash of the record's shape, as a number whose least significant
byte comes first. -/
def Catalog.fingerprint {n : Nat} (catalog : Catalog n) (record : RecordId n) : UInt64 :=
  let digest := Blake3.hash (Fingerprint.shapeBytes catalog record)
  UInt64.ofNat (BigEndian.decode (digest.take 8).reverse)

end RecordCodec
