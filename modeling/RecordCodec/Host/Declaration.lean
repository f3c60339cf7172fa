import RecordCodec.Record.Definition

/-!
# Declared record types

A program that uses records declares their fields by type: numbers, text, bytes, enums, boxes around
any of these, and other records.  The declaration gives the record's definition.  A record type may
also be left without a declaration; then it has a definition only and its values stay as they are.
-/

namespace RecordCodec

inductive FieldType (n : Nat) where
  | int8
  | int16
  | int32
  | int64
  | float32
  | float64
  | char16
  | bool
  | text
  | bytes
  /-- An enum of so many variants. -/
  | enum (variants : Nat)
  | record (target : RecordId n)
  /-- The same behind an indirection, which nothing outside the program sees. -/
  | boxed (inner : FieldType n)
  deriving DecidableEq

namespace FieldType

variable {n : Nat}

def unboxed : FieldType n → FieldType n
  | boxed inner => inner.unboxed
  | type => type

def kind : FieldType n → FieldKind n
  | int8 => .int8
  | int16 => .int16
  | int32 => .int32
  | int64 => .int64
  | float32 => .float32
  | float64 => .float64
  | char16 => .char16
  | bool => .bool
  | text => .text
  | bytes => .bytes
  | enum variants => .enum variants
  | record target => .nested target
  | boxed inner => inner.kind

end FieldType

structure Member (n : Nat) where
  name : String
  type : FieldType n
  override : WidthOverride
  deriving DecidableEq

structure Declaration (n : Nat) where
  name : String
  members : List (Member n)
  deriving DecidableEq

def Declaration.definition {n : Nat} (declaration : Declaration n) : RecordDef n where
  name := declaration.name
  fields := declaration.members.map fun member =>
    { name := member.name, kind := member.type.kind, override := member.override }

/-- A record type, with or without a declaration. -/
inductive RecordType (n : Nat) where
  | declared (declaration : Declaration n)
  | plain (definition : RecordDef n)

def RecordType.definition {n : Nat} : RecordType n → RecordDef n
  | declared declaration => declaration.definition
  | plain definition => definition

/-- The record types of a family. -/
abbrev TypeTable (n : Nat) := RecordId n → RecordType n

def TypeTable.catalog {n : Nat} (types : TypeTable n) : Catalog n :=
  fun record => (types record).definition

end RecordCodec
