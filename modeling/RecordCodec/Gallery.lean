import RecordCodec.Host.Declaration

/-!
# A gallery of declared records

Declarations that show each kind of field, narrow integers, nesting of any depth and in cycles, and
what is refused: bools, widths on the wrong kind, and enums with too many variants.
-/

namespace RecordCodec

/-- The records of the gallery. -/
inductive Specimen where
  | normal
  | unsignedTest
  | narrow64
  | position3D
  | bounds
  | account
  | profile
  | indirectA
  | indirectB
  | indirectC
  | tree
  | chain
  | flags
  | holdsFlags
  | badWidth
  | badWidthText
  | empty
  | documented
  | boxed
  | ord255Holder
  | ord256Holder
  /-- A chain of records, each holding the one below. -/
  | level (height : Fin 13)
  deriving DecidableEq

namespace Specimen

def all : List Specimen :=
  [normal, unsignedTest, narrow64, position3D, bounds, account, profile, indirectA, indirectB,
    indirectC, tree, chain, flags, holdsFlags, badWidth, badWidthText, empty, documented, boxed,
    ord255Holder, ord256Holder] ++ (List.finRange 13).map level

theorem mem_all (specimen : Specimen) : specimen ∈ all := by
  cases specimen <;> simp [all]

/-- The place of a record in the gallery. -/
def place (specimen : Specimen) : Fin all.length :=
  ⟨all.idxOf specimen, List.idxOf_lt_length_iff.2 (mem_all specimen)⟩

def name : Specimen → String
  | normal => "Normal"
  | unsignedTest => "UnsignedTest"
  | narrow64 => "Narrow64"
  | position3D => "Position3D"
  | bounds => "Bounds"
  | account => "Account"
  | profile => "Profile"
  | indirectA => "IndirectA"
  | indirectB => "IndirectB"
  | indirectC => "IndirectC"
  | tree => "Tree"
  | chain => "Chain"
  | flags => "Flags"
  | holdsFlags => "HoldsFlags"
  | badWidth => "BadWidth"
  | badWidthText => "BadWidthText"
  | empty => "Empty"
  | documented => "Documented"
  | boxed => "Boxed"
  | ord255Holder => "Ord255Holder"
  | ord256Holder => "Ord256Holder"
  | level height =>
    let digits := height.val
    s!"Level{digits}"

section

variable {n : Nat}

/-- A member that travels at its full width. -/
def member (name : String) (type : FieldType n) : Member n where
  name := name
  type := type
  override := .none

/-- A member that travels as an unsigned number. -/
def narrowed (name : String) (type : FieldType n) (override : WidthOverride) : Member n where
  name := name
  type := type
  override := override

def status : FieldType n := .enum 3

def single : FieldType n := .enum 1

/-- The members of a record; `id` gives the identities of the records of the gallery. -/
def members (id : Specimen → RecordId n) : Specimen → List (Member n)
  | normal => [member "foo" .int32, member "bar" .int8]
  | unsignedTest =>
    [narrowed "u_byte" .int32 .asU8, narrowed "u_short" .int32 .asU16,
      narrowed "u_int" .int64 .asU32]
  | narrow64 =>
    [narrowed "a" .int64 .asU8, narrowed "b" .int64 .asU16, narrowed "c" .int64 .asU32,
      member "d" .int64]
  | position3D => [member "x" .float32, member "y" .float32, member "z" .float32]
  | bounds => [member "min" (.record (id position3D)), member "max" (.record (id position3D))]
  | account =>
    [member "id" .int64, member "status" status, member "initial" .char16,
      member "balance" .float64, member "level" .int16]
  | profile =>
    [member "id" .int32, member "name" .text, member "avatar" .bytes,
      member "account" (.record (id account))]
  | indirectA => [member "b" (.boxed (.record (id indirectB))), member "tag" .int32]
  | indirectB => [member "c" (.boxed (.record (id indirectC)))]
  | indirectC => [member "a" (.boxed (.record (id indirectA)))]
  | tree =>
    [member "value" .int32, member "left" (.boxed (.record (id tree))),
      member "right" (.boxed (.record (id tree)))]
  | chain => [member "tag" .int8, member "next" (.boxed (.record (id chain)))]
  | flags => [member "enabled" .bool]
  | holdsFlags => [member "id" .int16, member "flags" (.record (id flags))]
  | badWidth => [narrowed "count" .int32 .asU32]
  | badWidthText => [narrowed "label" .text .asU8]
  | empty => []
  | documented => [member "seq" .int16, narrowed "budget" .int32 .asU8]
  | boxed =>
    [member "a" (.boxed .int16), member "b" (.boxed .text),
      member "c" (.boxed (.record (id position3D))), member "d" single]
  | ord255Holder => [member "e" (.enum 255)]
  | ord256Holder => [member "e" (.enum 256)]
  | level height =>
    if h : height.val = 0 then
      [member "v" .int8]
    else
      [member "inner" (.record (id (level ⟨height.val - 1, by omega⟩)))]

def declaration (id : Specimen → RecordId n) (specimen : Specimen) : Declaration n where
  name := specimen.name
  members := specimen.members id

end

end Specimen

end RecordCodec
