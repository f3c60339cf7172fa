import RecordCodec.Record.Definition
import RecordCodec.Layout.Schema

/-!
# Analysis and the schema registry

Analyzing a record resolves its fields and asks a registry for the schemas of the records nested in
it, except those that reach a cycle.  The registry analyzes each record once and keeps the outcome,
a failure too, whatever becomes of the definitions later.
-/

namespace RecordCodec

/-! ## Memo tables

A memo table holds one entry for each record type it was asked about, in the order of the first
requests.  An entry is never replaced.
-/

/-- Entries by record type. -/
structure Memo (n : Nat) (α : Type) where
  entries : List (RecordId n × α)

namespace Memo

variable {n : Nat} {α : Type}

def empty : Memo n α where
  entries := []

def get? (memo : Memo n α) (record : RecordId n) : Option α :=
  memo.entries.lookup record

def size (memo : Memo n α) : Nat :=
  memo.entries.length

def isEmpty (memo : Memo n α) : Bool :=
  memo.entries.isEmpty

/-- The entry of `record`, which is `entry` if there was none before, and the table with it. -/
def getOrInsert (memo : Memo n α) (record : RecordId n) (entry : α) : α × Memo n α :=
  match memo.get? record with
  | some present => (present, memo)
  | none => (entry, { entries := memo.entries ++ [(record, entry)] })

@[simp]
theorem get?_empty (record : RecordId n) : (empty : Memo n α).get? record = none := rfl

theorem get?_getOrInsert (memo : Memo n α) (record other : RecordId n) (entry : α) :
    (memo.getOrInsert record entry).2.get? other =
      if other = record then some ((memo.get? record).getD entry) else memo.get? other := by
  unfold getOrInsert
  cases hrecord : memo.get? record with
  | some present =>
    by_cases h : other = record
    · simp [h, hrecord]
    · simp [h]
  | none =>
    by_cases h : other = record
    · subst h
      simp only [get?] at hrecord
      simp [get?, List.lookup_append, hrecord]
    · have hne : (other == record) = false := by simpa using h
      simp [get?, List.lookup_append, h, List.lookup_cons, hne]

end Memo

/-! ## Analysis -/

abbrev SchemaResult (n : Nat) := Except SchemaError (Schema n)

/-- The outcomes of the analyses made so far. -/
abbrev Registry (n : Nat) := Memo n (SchemaResult n)

/-- A computation on a registry, which gives `none` when its budget is spent. -/
abbrev Lookup (n : Nat) := StateT (Registry n) Option

namespace Analysis

variable {n : Nat}

/-- The width of a nested record.  In a cyclic record the nested records that reach a cycle
themselves are left out; they have no width. -/
def nestedWidth (catalog : Catalog n) (schemaOf : RecordId n → Lookup n (SchemaResult n))
    (cyclic : Bool) (walk : CycleWalk n) (target : RecordId n) :
    ExceptT SchemaError (Lookup n) (Option Nat × CycleWalk n) := do
  let (skipped, walk) := if cyclic then walk.check catalog target else (false, walk)
  if skipped then
    return (none, walk)
  else
    let schema ← ExceptT.mk (schemaOf target)
    return (schema.fixedSize, walk)

def layoutFields (catalog : Catalog n) (schemaOf : RecordId n → Lookup n (SchemaResult n))
    (record : String) (cyclic : Bool) : CycleWalk n → List (FieldDef n) →
    ExceptT SchemaError (Lookup n) (List (FieldLayout n))
  | _, [] => return []
  | walk, field :: fields => do
    let wire ← ExceptT.mk (pure (field.wire record))
    let (width?, walk) ←
      match wire with
      | .leaf leaf => pure (leaf.width?, walk)
      | .nested target => nestedWidth catalog schemaOf cyclic walk target
    let layouts ← layoutFields catalog schemaOf record cyclic walk fields
    return { name := field.name, kind := field.kind, wire, width? } :: layouts

/-- Analyzes `record`; `schemaOf` gives the schemas of nested records. -/
def analyzeWith (catalog : Catalog n) (schemaOf : RecordId n → Lookup n (SchemaResult n))
    (record : RecordId n) : Lookup n (SchemaResult n) := ExceptT.run do
  let definition := catalog record
  let (cyclic, walk) := CycleWalk.empty.check catalog record
  let fields ← layoutFields catalog schemaOf definition.name cyclic walk definition.fields
  let fixedSize := if cyclic then none else (sumWidths definition.name fields).toOption
  return { record, name := definition.name, fields, fixedSize, cyclic }

/-- The registry's outcome for `record`, found now if there was none.  `none` when `depth` analyses
inside each other are not enough. -/
def schemaWithin (catalog : Catalog n) : (depth : Nat) → RecordId n → Lookup n (SchemaResult n)
  | 0, _ => failure
  | depth + 1, record => do
    match (← get).get? record with
    | some outcome => return outcome
    | none =>
      let outcome ← analyzeWith catalog (schemaWithin catalog depth) record
      modifyGet (·.getOrInsert record outcome)

/-- What a lookup gives, where one that was cut short counts as a cycle. -/
def complete (record : RecordId n) (lookup : Lookup n (SchemaResult n)) :
    StateM (Registry n) (SchemaResult n) := fun registry =>
  (lookup registry).getD
    (.ok { record, name := "", fields := [], fixedSize := none, cyclic := true }, registry)

end Analysis

namespace Registry

variable {n : Nat}

/-- The schema of `record`, analyzed on the first request.  Each analysis inside another is of a
record further down a chain without cycles, so `n + 1` of them are enough. -/
def schema (catalog : Catalog n) (record : RecordId n) : StateM (Registry n) (SchemaResult n) :=
  Analysis.complete record (Analysis.schemaWithin catalog (n + 1) record)

/-- Analyzes `record` without keeping its own outcome. -/
def analyze (catalog : Catalog n) (record : RecordId n) : StateM (Registry n) (SchemaResult n) :=
  Analysis.complete record
    (Analysis.analyzeWith catalog (Analysis.schemaWithin catalog (n + 1)) record)

end Registry

end RecordCodec
