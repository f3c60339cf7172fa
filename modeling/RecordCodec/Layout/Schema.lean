import RecordCodec.Record.Definition

/-!
# Wire kinds and schemas

A wire kind says how one field travels.  A schema is what analysis finds about a record: how each
field travels, how many bytes it always takes, and whether the record as a whole has a fixed size.
-/

namespace RecordCodec

/-! ## Wire kinds

A wire kind is a leaf, whose bytes depend on the field alone, or another record in place.  Resolving
a field gives its wire kind or says why the field is not allowed.
-/

/-- How a field that nests no record travels. -/
inductive Leaf where
  | int8
  | int16
  | int32
  | int64
  | float32
  | float64
  | char16
  /-- A 32-bit integer as an unsigned number of the given width. -/
  | unsigned32 (width : Width)
  /-- A 64-bit integer as an unsigned number of the given width. -/
  | unsigned64 (width : Width)
  /-- One byte, the ordinal of a variant. -/
  | enum (variants : Nat)
  /-- Two bytes of length, then so many bytes of UTF-8. -/
  | text
  /-- Two bytes of length, then so many bytes. -/
  | bytes
  deriving DecidableEq

namespace Leaf

/-- The bytes that a leaf takes whatever its value, if there is such a count. -/
def width? : Leaf → Option Nat
  | int8 | enum _ => some 1
  | int16 | char16 => some 2
  | int32 | float32 => some 4
  | int64 | float64 => some 8
  | unsigned32 width | unsigned64 width => some width.bytes
  | text | bytes => none

/-- The name in messages of the values that travel as this leaf. -/
def valueName : Leaf → String
  | int8 => "int8"
  | int16 => "int16"
  | int32 | unsigned32 _ => "int32"
  | int64 | unsigned64 _ => "int64"
  | float32 => "float32"
  | float64 => "float64"
  | char16 => "char16"
  | enum _ => "enum"
  | text => "text"
  | bytes => "bytes"

end Leaf

/-- How a field travels, where a nested record is known by a `ρ`. -/
inductive Wire (ρ : Type) where
  | leaf (kind : Leaf)
  | nested (target : ρ)
  deriving DecidableEq

namespace Wire

variable {ρ : Type}

/-- The bytes that a field takes whatever its value, not looking into nested records. -/
def width? : Wire ρ → Option Nat
  | .leaf kind => kind.width?
  | .nested _ => none

def valueName : Wire ρ → String
  | .leaf kind => kind.valueName
  | .nested _ => "nested record"

end Wire

/-- Why a record has no schema, or a schema no fixed size. -/
inductive SchemaError where
  /-- The field's length is not known from its kind. -/
  | noFixedWidth (record field kind : String)
  | boolNotPermitted (record field : String)
  /-- The enum has more variants than one byte can tell apart. -/
  | tooManyVariants (record field : String) (variants : Nat)
  | invalidOverride (record field kind : String) (override : WidthOverride)
  deriving DecidableEq

def maxVariants : Nat := 255

def SchemaError.message : SchemaError → String
  | noFixedWidth record field kind =>
    s!"field {record}.{field} of kind {kind} has no fixed wire width"
  | boolNotPermitted record field =>
    s!"field {record}.{field} is a bool, which is not permitted"
  | tooManyVariants record field variants =>
    s!"enum field {record}.{field} has {variants} variants, at most {maxVariants} are allowed"
  | invalidOverride record field kind override =>
    s!"width override {override.name} is not valid on {kind} field {record}.{field}"

/-- How a field of the record named `record` travels.  Only 32-bit integers narrow to one or two
bytes and 64-bit integers to one, two or four. -/
def FieldDef.wire {n : Nat} (record : String) (field : FieldDef n) :
    Except SchemaError (Wire (RecordId n)) :=
  match field.kind, field.override.width? with
  | .bool, _ => .error (.boolNotPermitted record field.name)
  | .int32, some .u8 => .ok (.leaf (.unsigned32 .u8))
  | .int32, some .u16 => .ok (.leaf (.unsigned32 .u16))
  | .int64, some width => .ok (.leaf (.unsigned64 width))
  | kind, some _ => .error (.invalidOverride record field.name kind.name field.override)
  | .int8, none => .ok (.leaf .int8)
  | .int16, none => .ok (.leaf .int16)
  | .int32, none => .ok (.leaf .int32)
  | .int64, none => .ok (.leaf .int64)
  | .float32, none => .ok (.leaf .float32)
  | .float64, none => .ok (.leaf .float64)
  | .char16, none => .ok (.leaf .char16)
  | .enum variants, none =>
    if maxVariants < variants then
      .error (.tooManyVariants record field.name variants)
    else
      .ok (.leaf (.enum variants))
  | .text, none => .ok (.leaf .text)
  | .bytes, none => .ok (.leaf .bytes)
  | .nested target, none => .ok (.nested target)

/-! ## Schemas -/

structure FieldLayout (n : Nat) where
  name : String
  kind : FieldKind n
  wire : Wire (RecordId n)
  /-- The bytes that the field takes whatever its value. -/
  width? : Option Nat
  deriving DecidableEq

/-- The layout of a field by itself: a nested record is not looked into, so it has no width. -/
def FieldDef.layout {n : Nat} (record : String) (field : FieldDef n) :
    Except SchemaError (FieldLayout n) := do
  let wire ← field.wire record
  return { name := field.name, kind := field.kind, wire, width? := wire.width? }

structure Schema (n : Nat) where
  record : RecordId n
  name : String
  /-- The fields in wire order. -/
  fields : List (FieldLayout n)
  /-- The bytes that every value of the record takes. -/
  fixedSize : Option Nat
  /-- Whether a cycle of nested fields can be reached from the record. -/
  cyclic : Bool
  deriving DecidableEq

/-- The sum of the widths of `fields`, refused at the first field without one.  Nothing notices if
it is no count. -/
def sumWidths {n : Nat} (record : String) (fields : List (FieldLayout n)) :
    Except SchemaError Nat :=
  fields.foldlM (fun total field =>
    match field.width? with
    | some width => .ok (wrapCount (total + width))
    | none => .error (.noFixedWidth record field.name field.kind.name)) 0

end RecordCodec
