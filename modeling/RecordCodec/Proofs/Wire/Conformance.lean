import RecordCodec.Plan.Basic
import RecordCodec.Value.Basic
import RecordCodec.Value.Error
import Mathlib.Algebra.GroupWithZero.Nat
import Mathlib.Tactic.Common

/-!
# Values that conform to a program

What it means that values conform to a program under some limits, said of the records that lie
inside them and without checking anything in any order: every record has as many fields as its plan
has steps, every field holds a value that fits its step, and no way down enters too many records
whose plan is flagged cyclic.  Each of these can be violated at some site, and the sites are ordered
as one comes upon them from the front.
-/

namespace RecordCodec

variable {ρ : Type}

/-! ## Fields -/

namespace Step

/-- The value is one that the step may have: of the right kind, with an ordinal of one of the
variants, a number that is not too wide, text or bytes that are not too long. -/
structure Fits (limits : Limits) (step : Step ρ) (value : Value) : Prop where
  kind : step.wire.valueName = value.kindName
  ordinal : ∀ {variants ordinal : Nat}, step.wire = .leaf (.enum variants) →
    value = .enum ordinal → ordinal < variants
  number32 : ∀ {width : Width} {number : Int32}, step.wire = .leaf (.unsigned32 width) →
    value = .int32 number → 0 ≤ number.toInt ∧ number.toInt ≤ width.maxValue
  number64 : ∀ {width : Width} {number : Int64}, step.wire = .leaf (.unsigned64 width) →
    value = .int64 number → 0 ≤ number.toInt ∧ number.toInt ≤ width.maxValue
  text : ∀ {string : String}, step.wire = .leaf .text → value = .text string →
    string.utf8ByteSize ≤ min limits.variableLength 65535
  bytes : ∀ {string : List UInt8}, step.wire = .leaf .bytes → value = .bytes string →
    string.length ≤ min limits.variableLength 65535

/-- What is wrong with a value that the step of a record may not have. -/
inductive Faults (limits : Limits) (record : String) (step : Step ρ) : Value → CodecError → Prop
  | kind {value : Value} (hkind : step.wire.valueName ≠ value.kindName) :
      Faults limits record step value
        (.invalidValue record step.field (.typeMismatch step.wire.valueName value.kindName))
  | ordinal {variants ordinal : Nat} (hwire : step.wire = .leaf (.enum variants))
      (hvariant : variants ≤ ordinal) :
      Faults limits record step (.enum ordinal)
        (.ordinalOutOfRange record step.field ordinal variants)
  | number32 {width : Width} {number : Int32} (hwire : step.wire = .leaf (.unsigned32 width))
      (hrange : ¬ (0 ≤ number.toInt ∧ number.toInt ≤ width.maxValue)) :
      Faults limits record step (.int32 number)
        (.invalidValue record step.field (.unsignedOutOfRange width number.toInt64))
  | number64 {width : Width} {number : Int64} (hwire : step.wire = .leaf (.unsigned64 width))
      (hrange : ¬ (0 ≤ number.toInt ∧ number.toInt ≤ width.maxValue)) :
      Faults limits record step (.int64 number)
        (.invalidValue record step.field (.unsignedOutOfRange width number))
  | text {string : String} (hwire : step.wire = .leaf .text)
      (hlength : min limits.variableLength 65535 < string.utf8ByteSize) :
      Faults limits record step (.text string)
        (.invalidValue record step.field
          (.tooLong string.utf8ByteSize (min limits.variableLength 65535)))
  | bytes {string : List UInt8} (hwire : step.wire = .leaf .bytes)
      (hlength : min limits.variableLength 65535 < string.length) :
      Faults limits record step (.bytes string)
        (.invalidValue record step.field
          (.tooLong string.length (min limits.variableLength 65535)))

variable {limits : Limits} {record : String} {step : Step ρ} {value : Value}

/-- Nothing is wrong with a value if and only if it fits. -/
theorem fits_iff : step.Fits limits value ↔ ∀ error, ¬ step.Faults limits record value error := by
  constructor
  · intro hfits error hfaults
    cases hfaults with
    | kind hkind => exact hkind hfits.kind
    | ordinal hwire hvariant => exact absurd (hfits.ordinal hwire rfl) (Nat.not_lt.2 hvariant)
    | number32 hwire hrange => exact hrange (hfits.number32 hwire rfl)
    | number64 hwire hrange => exact hrange (hfits.number64 hwire rfl)
    | text hwire hlength => exact absurd (hfits.text hwire rfl) (Nat.not_le.2 hlength)
    | bytes hwire hlength => exact absurd (hfits.bytes hwire rfl) (Nat.not_le.2 hlength)
  · intro hnone
    refine ⟨?_, ?_, ?_, ?_, ?_, ?_⟩
    · exact Decidable.not_not.1 fun hkind => hnone _ (.kind hkind)
    · rintro variants ordinal hwire rfl
      exact Nat.lt_of_not_le fun hvariant => hnone _ (.ordinal hwire hvariant)
    · rintro width number hwire rfl
      exact Decidable.not_not.1 fun hrange => hnone _ (.number32 hwire hrange)
    · rintro width number hwire rfl
      exact Decidable.not_not.1 fun hrange => hnone _ (.number64 hwire hrange)
    · rintro string hwire rfl
      exact Nat.le_of_not_lt fun hlength => hnone _ (.text hwire hlength)
    · rintro string hwire rfl
      exact Nat.le_of_not_lt fun hlength => hnone _ (.bytes hwire hlength)

/-- At most one thing is wrong with a value. -/
theorem Faults.unique {error error' : CodecError} (h : step.Faults limits record value error)
    (h' : step.Faults limits record value error') : error = error' := by
  cases h <;> cases h' <;> simp_all [Wire.valueName, Leaf.valueName, Value.kindName]

end Step

/-! ## Leaves -/

def Value.byteLength : Value → Nat
  | text string => string.utf8ByteSize
  | bytes string => string.length
  | _ => 0

/-- The bytes that a leaf takes on the wire: as many as it always takes, or two for the length and
then the bytes of the value. -/
def Leaf.wireSize (leaf : Leaf) (value : Value) : Nat :=
  leaf.width?.getD (2 + value.byteLength)

variable (planOf : ρ → Plan ρ)

mutual

def stepLeaves (step : Step ρ) : Value → List (Leaf × Value)
  | .record fields =>
    match step.wire with
    | .leaf kind => [(kind, .record fields)]
    | .nested target => stepsLeaves (planOf target).steps fields
  | value =>
    match step.wire with
    | .leaf kind => [(kind, value)]
    | .nested _ => []

/-- The leaves of the values of a record, from the front. -/
def stepsLeaves : List (Step ρ) → List Value → List (Leaf × Value)
  | step :: steps, value :: values => stepLeaves step value ++ stepsLeaves steps values
  | _, _ => []

end

def wireSizes (leaves : List (Leaf × Value)) : Nat :=
  (leaves.map fun leaf => leaf.1.wireSize leaf.2).sum

/-! ## Records inside others -/

/-- `fields` are the values of a record `inner` that lies inside `values`, those of `record`, or is
`record` itself.  The site says which way it lies: at each record on the way, `index + 1` stands for
the field at `index`.  From the depth `depth` one reaches the depth `reached`, which counts the
records whose plan is flagged cyclic. -/
inductive Inside : (depth : Nat) → (record : ρ) → (values : List Value) → (site : List Nat) →
    (reached : Nat) → (inner : ρ) → (fields : List Value) → Prop
  | here (depth : Nat) (record : ρ) (values : List Value) :
      Inside depth record values [] depth record values
  | field {depth index reached : Nat} {record target inner : ρ} {site : List Nat} {step : Step ρ}
      {values nested fields : List Value}
      (hfield : ((planOf record).steps.zip values)[index]? = some (step, .record nested))
      (hwire : step.wire = .nested target)
      (h : Inside (depth + (planOf target).cyclic.toNat) target nested site reached inner fields) :
      Inside depth record values ((index + 1) :: site) reached inner fields

/-- The values conform to the plans, from the given depth on. -/
structure Conforms (limits : Limits) (depth : Nat) (record : ρ) (values : List Value) : Prop where
  count : ∀ {site reached inner fields},
    Inside planOf depth record values site reached inner fields →
      fields.length = (planOf inner).steps.length
  fits : ∀ {site reached inner fields},
    Inside planOf depth record values site reached inner fields →
      ∀ {index : Nat} {step : Step ρ} {value : Value},
        ((planOf inner).steps.zip fields)[index]? = some (step, value) → step.Fits limits value
  nesting : ∀ {site reached inner fields},
    Inside planOf depth record values site reached inner fields → reached ≤ limits.nestingDepth

/-- `error` is what is wrong at a site.  That a record lies too deep is wrong where the record lies;
behind that, 0 is the site of its number of fields, and `index + 1` that of the field at `index`. -/
inductive Violates (limits : Limits) (depth : Nat) (record : ρ) (values : List Value) :
    List Nat → CodecError → Prop
  | nesting {site : List Nat} {reached : Nat} {inner : ρ} {fields : List Value}
      (h : Inside planOf depth record values site reached inner fields) (hbelow : site ≠ [])
      (hcyclic : (planOf inner).cyclic = true) (hlimit : limits.nestingDepth < reached) :
      Violates limits depth record values site
        (.limitExceeded .nestingDepth limits.nestingDepth reached)
  | count {site : List Nat} {reached : Nat} {inner : ρ} {fields : List Value}
      (h : Inside planOf depth record values site reached inner fields)
      (hcount : fields.length ≠ (planOf inner).steps.length) :
      Violates limits depth record values (site ++ [0])
        (.fieldCountMismatch (planOf inner).name (planOf inner).steps.length fields.length)
  | field {site : List Nat} {reached index : Nat} {inner : ρ} {fields : List Value} {step : Step ρ}
      {value : Value} {error : CodecError}
      (h : Inside planOf depth record values site reached inner fields)
      (hfield : ((planOf inner).steps.zip fields)[index]? = some (step, value))
      (hfault : step.Faults limits (planOf inner).name value error) :
      Violates limits depth record values (site ++ [index + 1]) error

/-- What is wrong with one field of a record that lies at the given depth. -/
inductive FieldViolates (limits : Limits) (record : String) (depth : Nat) (step : Step ρ) :
    Value → List Nat → CodecError → Prop
  | fault {value : Value} {error : CodecError} (hfault : step.Faults limits record value error) :
      FieldViolates limits record depth step value [] error
  | nesting {target : ρ} {fields : List Value} (hwire : step.wire = .nested target)
      (hcyclic : (planOf target).cyclic = true) (hlimit : limits.nestingDepth < depth + 1) :
      FieldViolates limits record depth step (.record fields) []
        (.limitExceeded .nestingDepth limits.nestingDepth (depth + 1))
  | inside {target : ρ} {fields : List Value} {site : List Nat} {error : CodecError}
      (hwire : step.wire = .nested target)
      (h : Violates planOf limits (depth + (planOf target).cyclic.toNat) target fields site error) :
      FieldViolates limits record depth step (.record fields) site error

section

variable {planOf} {limits : Limits} {depth : Nat} {record : ρ} {values : List Value}
variable {site : List Nat} {error : CodecError}

/-- What is wrong inside a record is its number of fields, or something with one of them. -/
theorem violates_iff :
    Violates planOf limits depth record values site error ↔
      (site = [0] ∧ values.length ≠ (planOf record).steps.length ∧ error =
        .fieldCountMismatch (planOf record).name (planOf record).steps.length values.length) ∨
      ∃ index step value rest, ((planOf record).steps.zip values)[index]? = some (step, value) ∧
        site = (index + 1) :: rest ∧
        FieldViolates planOf limits (planOf record).name depth step value rest error := by
  constructor
  · intro h
    cases h with
    | nesting hinside hbelow hcyclic hlimit =>
      cases hinside with
      | here => exact absurd rfl hbelow
      | @field _ index _ _ target _ rest step _ nested _ hfield hwire hinside =>
        refine .inr ⟨index, step, .record nested, rest, hfield, rfl, ?_⟩
        cases hinside with
        | here =>
          rw [hcyclic] at hlimit ⊢
          exact .nesting hwire hcyclic hlimit
        | field hfield' hwire' hinside =>
          exact .inside hwire
            (.nesting (.field hfield' hwire' hinside) (List.cons_ne_nil _ _) hcyclic hlimit)
    | count hinside hcount =>
      cases hinside with
      | here => exact .inl ⟨rfl, hcount, rfl⟩
      | field hfield hwire hinside =>
        exact .inr ⟨_, _, _, _, hfield, rfl, .inside hwire (.count hinside hcount)⟩
    | field hinside hfield hfault =>
      cases hinside with
      | here => exact .inr ⟨_, _, _, [], hfield, rfl, .fault hfault⟩
      | field hfield' hwire hinside =>
        exact .inr ⟨_, _, _, _, hfield', rfl, .inside hwire (.field hinside hfield hfault)⟩
  · rintro (⟨rfl, hcount, rfl⟩ | ⟨index, step, value, rest, hfield, rfl, hviolates⟩)
    · exact .count (.here depth record values) hcount
    · cases hviolates with
      | fault hfault => exact .field (.here depth record values) hfield hfault
      | @nesting target fields hwire hcyclic hlimit =>
        have hreached : depth + 1 = depth + (planOf target).cyclic.toNat := by
          rw [hcyclic]
          rfl
        rw [hreached] at hlimit ⊢
        exact .nesting (.field hfield hwire (.here _ _ _)) (List.cons_ne_nil _ _) hcyclic hlimit
      | inside hwire h =>
        cases h with
        | nesting hinside hbelow hcyclic hlimit =>
          exact .nesting (.field hfield hwire hinside) (List.cons_ne_nil _ _) hcyclic hlimit
        | count hinside hcount => exact .count (.field hfield hwire hinside) hcount
        | field hinside hfield' hfault => exact .field (.field hfield hwire hinside) hfield' hfault

/-- What is wrong inside a nested record is wrong inside the record around it. -/
theorem Violates.outward {index : Nat} {step : Step ρ} {target : ρ} {fields : List Value}
    (hfield : ((planOf record).steps.zip values)[index]? = some (step, .record fields))
    (hwire : step.wire = .nested target)
    (h : Violates planOf limits (depth + (planOf target).cyclic.toNat) target fields site error) :
    Violates planOf limits depth record values ((index + 1) :: site) error :=
  violates_iff.2 (.inr ⟨index, step, .record fields, site, hfield, rfl, .inside hwire h⟩)

/-- Values conform if and only if nothing is wrong inside them. -/
theorem conforms_iff (hdepth : depth ≤ limits.nestingDepth) :
    Conforms planOf limits depth record values ↔
      ∀ site error, ¬ Violates planOf limits depth record values site error := by
  constructor
  · intro h site error hviolates
    cases hviolates with
    | nesting hinside _ _ hlimit => exact absurd (h.nesting hinside) (Nat.not_le.2 hlimit)
    | count hinside hcount => exact hcount (h.count hinside)
    | field hinside hfield hfault => exact Step.fits_iff.1 (h.fits hinside hfield) _ hfault
  · intro hnone
    refine ⟨fun hinside => ?_, fun hinside _ _ _ hfield => ?_, fun hinside => ?_⟩
    · exact Decidable.not_not.1 fun hcount => hnone _ _ (.count hinside hcount)
    · exact Step.fits_iff.2 fun error hfault => hnone _ _ (.field hinside hfield hfault)
    · -- The first record on the way that lies too deep would be a violation.
      induction hinside with
      | here => exact hdepth
      | @field depth index _ record target _ _ step values nested _ hfield hwire hinside ih =>
        refine ih (Nat.le_of_not_lt fun hlimit => ?_) fun site error h =>
          hnone _ _ (h.outward hfield hwire)
        cases hcyclic : (planOf target).cyclic with
        | false =>
          rw [hcyclic] at hlimit
          exact absurd hdepth (Nat.not_le.2 hlimit)
        | true =>
          exact hnone _ _ (.nesting (.field hfield hwire (.here _ _ _)) (List.cons_ne_nil _ _)
            hcyclic hlimit)

end

end RecordCodec
