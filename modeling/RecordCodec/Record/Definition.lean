import RecordCodec.Number.Width

/-!
# Record definitions

A record type is a list of named fields.  A field holds a number, an enum, text, bytes, or another
record in place; the records that can be named form a finite family, and a catalog gives each
member of the family its definition.
-/

namespace RecordCodec

/-- The identity of a record type in a family of `n`; names and shapes play no part in it. -/
abbrev RecordId (n : Nat) := Fin n

/-- Whether an integer field travels as a narrower unsigned number. -/
inductive WidthOverride where
  | none
  | asU8
  | asU16
  | asU32
  deriving DecidableEq

namespace WidthOverride

def width? : WidthOverride → Option Width
  | none => Option.none
  | asU8 => some .u8
  | asU16 => some .u16
  | asU32 => some .u32

def name : WidthOverride → String
  | none => "none"
  | asU8 => "as u8"
  | asU16 => "as u16"
  | asU32 => "as u32"

end WidthOverride

inductive FieldKind (n : Nat) where
  | int8
  | int16
  | int32
  | int64
  | float32
  | float64
  /-- One UTF-16 code unit. -/
  | char16
  | bool
  /-- One of so many variants. -/
  | enum (variants : Nat)
  | text
  | bytes
  /-- Another record, inlined. -/
  | nested (record : RecordId n)
  deriving DecidableEq

namespace FieldKind

variable {n : Nat}

/-- The kinds that are known by their name alone. -/
def plain : List (FieldKind n) :=
  [int8, int16, int32, int64, float32, float64, char16, bool, text, bytes]

def name : FieldKind n → String
  | int8 => "int8"
  | int16 => "int16"
  | int32 => "int32"
  | int64 => "int64"
  | float32 => "float32"
  | float64 => "float64"
  | char16 => "char16"
  | bool => "bool"
  | enum _ => "enum"
  | text => "text"
  | bytes => "bytes"
  | nested _ => "nested record"

/-- Whether values of the kind differ in length on the wire by themselves. -/
def isVariableLength : FieldKind n → Bool
  | text | bytes => true
  | _ => false

def nested? : FieldKind n → Option (RecordId n)
  | nested record => some record
  | _ => none

end FieldKind

structure FieldDef (n : Nat) where
  name : String
  kind : FieldKind n
  override : WidthOverride
  deriving DecidableEq

/-- What a record type says of itself: its name and its fields in order. -/
structure RecordDef (n : Nat) where
  name : String
  fields : List (FieldDef n)
  deriving DecidableEq

/-- The records that the fields nest, in field order. -/
def RecordDef.nested {n : Nat} (definition : RecordDef n) : List (RecordId n) :=
  definition.fields.filterMap (·.kind.nested?)

/-- The definition of every record type of a family, as it stands at some moment. -/
abbrev Catalog (n : Nat) := RecordId n → RecordDef n

/-- The catalog in which `record` is defined anew. -/
def Catalog.define {n : Nat} (catalog : Catalog n) (record : RecordId n)
    (definition : RecordDef n) : Catalog n :=
  fun other => if other = record then definition else catalog other

/-! ## Infinite nesting

Every nested field is always present, so a record from which a cycle of nested fields can be
reached has no finite value.  `CycleWalk` searches for a cycle depth-first.  It remembers the
records below which there is none, so that a shared record is explored once, also over several
searches.
-/

/-- The state of a search: the records on the current branch, innermost last, and those known to
reach no cycle. -/
structure CycleWalk (n : Nat) where
  path : List (RecordId n)
  acyclic : List (RecordId n)

namespace CycleWalk

variable {n : Nat}

def empty : CycleWalk n where
  path := []
  acyclic := []

def enter (walk : CycleWalk n) (record : RecordId n) : CycleWalk n :=
  { walk with path := walk.path ++ [record] }

/-- The walk after `record`, the innermost, was explored without meeting a cycle. -/
def leave (walk : CycleWalk n) (record : RecordId n) : CycleWalk n where
  path := walk.path.dropLast
  acyclic := record :: walk.acyclic

/-- Whether a cycle is met at or below `record`; a search that meets one stops there and leaves
its branch on the path.  `none` when `depth` records on one branch are not enough. -/
def visit (catalog : Catalog n) : (depth : Nat) → RecordId n → StateT (CycleWalk n) Option Bool
  | 0, _ => failure
  | depth + 1, record => do
    let walk ← get
    if record ∈ walk.acyclic then
      return false
    else if record ∈ walk.path then
      return true
    else
      set (walk.enter record)
      if ← (catalog record).nested.anyM (visit catalog depth) then
        return true
      else
        modify (·.leave record)
        return false

/-- Searches anew from `record`, keeping what earlier searches learned.  A branch holds a record
of the family at most once before it meets the first again, so `n + 1` records are enough. -/
def check (walk : CycleWalk n) (catalog : Catalog n) (record : RecordId n) : Bool × CycleWalk n :=
  let start := { walk with path := [] }
  (visit catalog (n + 1) record start).getD (true, start)

end CycleWalk

/-- Whether a cycle of nested fields can be reached from `record`. -/
def Catalog.isInfinitelyNested {n : Nat} (catalog : Catalog n) (record : RecordId n) : Bool :=
  (CycleWalk.empty.check catalog record).1

end RecordCodec
