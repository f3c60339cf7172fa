import RecordCodec.Plan.Decode
import RecordCodec.Plan.Encode
import RecordCodec.Proofs.Codec.Transparency

/-!
# Reading and writing by the definitions

What a codec does, said without schemas and plans.  One goes through the fields of a record as they
are defined, resolves each of them when its turn comes, and goes on inside a nested record by its
identity.
-/

namespace RecordCodec.Catalog

variable {n : Nat} (catalog : Catalog n) (limits : Limits)

/-- How a field of `record` travels; an error if it is not allowed. -/
def resolve (record : RecordId n) (field : FieldDef n) : Except CodecError (Wire (RecordId n)) :=
  (field.wire (catalog record).name).mapError CodecError.schema

def fixedSize (record : RecordId n) : Option Nat :=
  (catalog.outcome record).toOption.bind (·.fixedSize)

/-! ## Reading -/

section Reading

variable {σ : Type} [Source σ]

/-- Reads one field of `record`, at the given depth; `nested` reads a nested record. -/
def readField (nested : RecordId n → (depth : Nat) → Decoding σ (List Value))
    (record : RecordId n) (depth : Nat) (field : FieldDef n) : Decoding σ Value := do
  match ← Decoding.ofExcept (catalog.resolve record field) with
  | .leaf kind => kind.decode (catalog record).name field.name limits
  | .nested target =>
    let depth ← Decoding.ofExcept (limits.enter (catalog.isInfinitelyNested target) depth)
    Value.record <$> nested target depth

/-- Reads `record`, at the given depth.  The budget is the number of records that may be open at
once. -/
def readRecord : (budget : Nat) → RecordId n → (depth : Nat) → Decoding σ (List Value)
  | 0, _, _ => .exhausted
  | budget + 1, record, depth =>
    (catalog record).fields.mapM
      (catalog.readField limits (readRecord budget) record depth)

/-- Reads `record`; a source shorter than its fixed size is refused before anything is read. -/
def readChecked (budget : Nat) (record : RecordId n) : Decoding σ (List Value) := do
  if let some needed := catalog.fixedSize record then
    let available ← Decoding.remaining
    if available < needed then
      throw (.insufficientData (catalog record).name needed available)
  catalog.readRecord limits budget record 0

end Reading

/-! ## Checking -/

def checkCount (record : RecordId n) (values : List Value) : Except CodecError Unit :=
  let expected := (catalog record).fields.length
  if values.length = expected then
    .ok ()
  else
    .error (.fieldCountMismatch (catalog record).name expected values.length)

mutual

def fieldLength (record : RecordId n) (depth : Nat) (field : FieldDef n) :
    Value → Except CodecError Nat
  | .record values => do
    match ← catalog.resolve record field with
    | .leaf kind => kind.encodedLength (catalog record).name field.name limits (.record values)
    | .nested target =>
      let depth ← limits.enter (catalog.isInfinitelyNested target) depth
      catalog.checkCount target values
      fieldsLength target depth (catalog target).fields values
  | value => do
    match ← catalog.resolve record field with
    | .leaf kind => kind.encodedLength (catalog record).name field.name limits value
    | .nested _ => .error (kindMismatch (catalog record).name field.name "nested record" value)

def fieldsLength (record : RecordId n) (depth : Nat) :
    List (FieldDef n) → List Value → Except CodecError Nat
  | field :: fields, value :: values => do
    let first ← fieldLength record depth field value
    let rest ← fieldsLength record depth fields values
    return first + rest
  | _, _ => return 0

end

/-- The written length of the values of `record`, which are checked. -/
def writtenLength (record : RecordId n) (values : List Value) : Except CodecError Nat := do
  catalog.checkCount record values
  catalog.fieldsLength limits record 0 (catalog record).fields values

/-! ## Writing -/

section Writing

variable {κ : Type} [Sink κ]

mutual

def writeField (record : RecordId n) (field : FieldDef n) : Value → Encoding κ Unit
  | .record values => do
    match ← Encoding.ofExcept (catalog.resolve record field) with
    | .leaf kind => kind.encode (catalog record).name field.name (.record values)
    | .nested target => writeFields target (catalog target).fields values
  | value => do
    match ← Encoding.ofExcept (catalog.resolve record field) with
    | .leaf kind => kind.encode (catalog record).name field.name value
    | .nested _ => throw (kindMismatch (catalog record).name field.name "nested record" value)

def writeFields (record : RecordId n) : List (FieldDef n) → List Value → Encoding κ Unit
  | field :: fields, value :: values => do
    writeField record field value
    writeFields record fields values
  | _, _ => return

end

/-- Checks the values of `record`, then writes them; gives their written length. -/
def write (record : RecordId n) (values : List Value) : Encoding κ Nat := do
  let length ← Encoding.ofExcept (catalog.writtenLength limits record values)
  catalog.writeFields record (catalog record).fields values
  return length

end Writing

/-! ## One field at a time -/

section Fields

variable {catalog : Catalog n} {limits : Limits} {record target : RecordId n} {depth : Nat}
variable {field : FieldDef n}

theorem resolve_of_ok {wire : Wire (RecordId n)}
    (hwire : field.wire (catalog record).name = .ok wire) :
    catalog.resolve record field = .ok wire := by
  rw [resolve, hwire]
  rfl

variable {σ κ : Type} [Source σ] [Sink κ]

section Leaf

variable {kind : Leaf} (hwire : field.wire (catalog record).name = .ok (.leaf kind))
include hwire

theorem readField_of_leaf (nested : RecordId n → (depth : Nat) → Decoding σ (List Value)) :
    catalog.readField limits nested record depth field =
      kind.decode (catalog record).name field.name limits := by
  rw [readField, resolve_of_ok hwire]
  exact pure_bind _ _

theorem fieldLength_of_leaf (value : Value) :
    catalog.fieldLength limits record depth field value =
      kind.encodedLength (catalog record).name field.name limits value := by
  cases value <;> simp only [fieldLength, resolve_of_ok hwire] <;> rfl

theorem writeField_of_leaf (value : Value) :
    (catalog.writeField record field value : Encoding κ Unit) =
      kind.encode (catalog record).name field.name value := by
  cases value <;> simp only [writeField, resolve_of_ok hwire] <;> exact pure_bind _ _

end Leaf

section Nested

variable (hwire : field.wire (catalog record).name = .ok (.nested target))
include hwire

theorem readField_of_nested (nested : RecordId n → (depth : Nat) → Decoding σ (List Value)) :
    catalog.readField limits nested record depth field = (do
      let inner ← Decoding.ofExcept (limits.enter (catalog.isInfinitelyNested target) depth)
      Value.record <$> nested target inner) := by
  rw [readField, resolve_of_ok hwire]
  exact pure_bind _ _

theorem fieldLength_of_nested (values : List Value) :
    catalog.fieldLength limits record depth field (.record values) = (do
      let inner ← limits.enter (catalog.isInfinitelyNested target) depth
      catalog.checkCount target values
      catalog.fieldsLength limits target inner (catalog target).fields values) := by
  rw [fieldLength, resolve_of_ok hwire]
  rfl

theorem fieldLength_of_other {value : Value} (hother : ∀ values, value ≠ .record values) :
    catalog.fieldLength limits record depth field value =
      .error (kindMismatch (catalog record).name field.name "nested record" value) := by
  cases value with
  | record values => exact absurd rfl (hother values)
  | _ =>
    simp only [fieldLength, resolve_of_ok hwire]
    rfl

theorem writeField_of_nested (values : List Value) :
    (catalog.writeField record field (.record values) : Encoding κ Unit) =
      catalog.writeFields target (catalog target).fields values := by
  rw [writeField, resolve_of_ok hwire]
  exact pure_bind _ _

end Nested

theorem fieldsLength_cons {fields : List (FieldDef n)} {value : Value} {values : List Value} :
    catalog.fieldsLength limits record depth (field :: fields) (value :: values) = (do
      let first ← catalog.fieldLength limits record depth field value
      let rest ← catalog.fieldsLength limits record depth fields values
      return first + rest) := by
  rw [fieldsLength]

end Fields

end RecordCodec.Catalog
