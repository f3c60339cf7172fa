import RecordCodec.Proofs.Codec.Core
import RecordCodec.Proofs.Wire.Conformance
import RecordCodec.Proofs.Wire.Writing

/-!
# The check and the first fault

Checking values against a program stops at the first thing that is wrong.  It goes through just if
nothing is, that is, if the values conform, and then it has added up what all leaves take on the
wire.  Otherwise its error is that of the first violation, in the order of their sites: of each
record first that it lies too deep, then that its number of fields is wrong, then what is wrong with
its fields, one after another and inwards.  The depth is counted only up to the greatest count, so
this is only said of values where no record that lies deeper is the first violation.
-/

namespace RecordCodec

/-! ## Values by induction -/

namespace Value

/-- A property of all values: one that a record has if all its fields have it. -/
theorem induction {motive : Value → Prop}
    (hrecord : ∀ fields, (∀ value ∈ fields, motive value) → motive (.record fields))
    (hother : ∀ value, (∀ fields, value ≠ .record fields) → motive value) (value : Value) :
    motive value := by
  cases value with
  | record fields => exact hrecord fields fun value hmem => induction hrecord hother value
  | _ => exact hother _ fun _ heq => by cases heq
termination_by sizeOf value
decreasing_by
  have hlt := List.sizeOf_lt_of_mem hmem
  simp only [record.sizeOf_spec]
  omega

mutual

def height : Value → Nat
  | .record fields => heights fields + 1
  | _ => 0

def heights : List Value → Nat
  | [] => 0
  | value :: values => max value.height (heights values)

end

theorem height_le_heights {value : Value} {values : List Value} (h : value ∈ values) :
    value.height ≤ heights values := by
  induction values with
  | nil => cases h
  | cons first values ih =>
    rw [heights]
    rcases List.mem_cons.1 h with rfl | hmem
    · exact Nat.le_max_left _ _
    · exact Nat.le_trans (ih hmem) (Nat.le_max_right _ _)

end Value

/-! ## Outcomes of a check -/

/-- The error is what is wrong at the site, and nothing else is wrong there or before. -/
def IsFirst (violates : List Nat → CodecError → Prop) (site : List Nat) (error : CodecError) :
    Prop :=
  violates site error ∧
    ∀ site' error', violates site' error' → site < site' ∨ site' = site ∧ error' = error

theorem IsFirst.unique {violates : List Nat → CodecError → Prop} {site site' : List Nat}
    {error error' : CodecError} (h : IsFirst violates site error)
    (h' : IsFirst violates site' error') : error = error' := by
  rcases h.2 site' error' h'.1 with hbefore | ⟨-, rfl⟩
  · rcases h'.2 site error h.1 with hafter | ⟨-, rfl⟩
    · exact absurd (List.lt_trans hbefore hafter) (List.lt_irrefl _)
    · rfl
  · rfl

/-- If nothing is wrong, the outcome is what the leaves take on the wire, and otherwise the first
error. -/
def Decides (violates : List Nat → CodecError → Prop) (leaves : List (Leaf × Value)) :
    Except CodecError Nat → Prop
  | .ok length => (∀ site error, ¬ violates site error) ∧ length = wireSizes leaves
  | .error error => ∃ site, IsFirst violates site error

namespace Decides

variable {violates : List Nat → CodecError → Prop} {leaves : List (Leaf × Value)}
variable {outcome : Except CodecError Nat}

theorem eq_ok_iff (h : Decides violates leaves outcome) {length : Nat} :
    outcome = .ok length ↔ (∀ site error, ¬ violates site error) ∧ length = wireSizes leaves := by
  cases outcome with
  | ok total =>
    obtain ⟨hnone, rfl⟩ := h
    constructor
    · intro heq
      cases heq
      exact ⟨hnone, rfl⟩
    · rintro ⟨-, rfl⟩
      rfl
  | error error =>
    obtain ⟨site, hviolates, -⟩ := h
    exact ⟨nofun, fun hnone => absurd hviolates (hnone.1 site error)⟩

theorem eq_error_iff (h : Decides violates leaves outcome) {error : CodecError} :
    outcome = .error error ↔ ∃ site, IsFirst violates site error := by
  cases outcome with
  | ok total => exact ⟨nofun, fun ⟨site, hviolates, _⟩ => absurd hviolates (h.1 site error)⟩
  | error found =>
    constructor
    · intro heq
      cases heq
      exact h
    · rintro ⟨site, hfirst⟩
      obtain ⟨site', hfirst'⟩ := h
      rw [hfirst.unique hfirst']

end Decides

/-- The first thing that is wrong is that a record lies deeper than is ever counted. -/
def UncountedFirst (violates : List Nat → CodecError → Prop) : Prop :=
  ∃ site limit reached, maxCount < reached ∧
    IsFirst violates site (.limitExceeded .nestingDepth limit reached)

/-- The outcome is decided, unless a depth that is not counted comes first. -/
def DecidesCounted (violates : List Nat → CodecError → Prop) (leaves : List (Leaf × Value))
    (outcome : Except CodecError Nat) : Prop :=
  Decides violates leaves outcome ∨ UncountedFirst violates

namespace DecidesCounted

variable {violates : List Nat → CodecError → Prop} {leaves : List (Leaf × Value)}
variable {outcome : Except CodecError Nat}

theorem congr {violates' : List Nat → CodecError → Prop}
    (h : DecidesCounted violates leaves outcome)
    (hiff : ∀ site error, violates' site error ↔ violates site error) :
    DecidesCounted violates' leaves outcome := by
  obtain rfl : violates' = violates := by
    ext site error
    exact hiff site error
  exact h

theorem eq_ok (h : DecidesCounted violates leaves outcome)
    (hnone : ∀ site error, ¬ violates site error) : outcome = .ok (wireSizes leaves) := by
  rcases h with hdecides | ⟨site, limit, reached, -, hviolates, -⟩
  · exact hdecides.eq_ok_iff.2 ⟨hnone, rfl⟩
  · exact absurd hviolates (hnone site _)

theorem eq_error (h : DecidesCounted violates leaves outcome) {site : List Nat}
    {error : CodecError} (hfirst : IsFirst violates site error)
    (hcounted : ∀ limit reached, error ≠ .limitExceeded .nestingDepth limit reached) :
    outcome = .error error := by
  rcases h with hdecides | ⟨site', limit, reached, -, hfirst'⟩
  · exact hdecides.eq_error_iff.2 ⟨site, hfirst⟩
  · exact absurd (hfirst.unique hfirst') (hcounted limit reached)

end DecidesCounted

/-! ## Fields -/

section Fields

variable {ρ : Type} {planOf : ρ → Plan ρ} {limits : Limits} {record : String}
variable {depth counted : Nat} {step : Step ρ} {kind : Leaf} {value : Value}

theorem Leaf.encodedLength_of_kind_ne (record field : String)
    (hkind : kind.valueName ≠ value.kindName) :
    kind.encodedLength record field limits value =
      .error (kindMismatch record field kind.valueName value) := by
  cases kind <;> cases value <;> first | rfl | exact absurd rfl hkind

theorem unsignedLength_of_not (record field : String) {width : Width} {number : Int64}
    (hrange : ¬ (0 ≤ number.toInt ∧ number.toInt ≤ width.maxValue)) :
    unsignedLength record field width number =
      .error (.invalidValue record field (.unsignedOutOfRange width number)) := by
  rw [unsignedLength, narrow_eq, if_neg hrange]

/-- The check of a leaf finds what is wrong with the value. -/
theorem Step.Faults.encodedLength {error : CodecError} (h : step.Faults limits record value error)
    (hwire : step.wire = .leaf kind) :
    kind.encodedLength record step.field limits value = .error error := by
  cases h with
  | kind hkind =>
    rw [hwire] at hkind ⊢
    exact Leaf.encodedLength_of_kind_ne record step.field hkind
  | ordinal hwire' hvariant =>
    obtain rfl := Wire.leaf.inj (hwire.symm.trans hwire')
    exact if_neg (Nat.not_lt.2 hvariant)
  | number32 hwire' hrange =>
    obtain rfl := Wire.leaf.inj (hwire.symm.trans hwire')
    rw [← Int32.toInt_toInt64] at hrange
    exact unsignedLength_of_not record step.field hrange
  | number64 hwire' hrange =>
    obtain rfl := Wire.leaf.inj (hwire.symm.trans hwire')
    exact unsignedLength_of_not record step.field hrange
  | text hwire' hlength =>
    obtain rfl := Wire.leaf.inj (hwire.symm.trans hwire')
    exact if_pos hlength
  | bytes hwire' hlength =>
    obtain rfl := Wire.leaf.inj (hwire.symm.trans hwire')
    exact if_pos hlength

/-- The check of a leaf lets a value pass that fits, and tells what it takes on the wire. -/
theorem Step.Fits.encodedLength (h : step.Fits limits value) (hwire : step.wire = .leaf kind) :
    kind.encodedLength record step.field limits value = .ok (kind.wireSize value) := by
  have hkind := h.kind
  rw [hwire] at hkind
  cases kind <;> cases value <;> simp [Wire.valueName, Leaf.valueName, Value.kindName] at hkind
  case unsigned32.int32 width number =>
    have hrange := h.number32 hwire rfl
    rw [← Int32.toInt_toInt64] at hrange
    exact (unsignedLength_eq_ok_iff record step.field).2 ⟨hrange, rfl⟩
  case unsigned64.int64 width number =>
    exact (unsignedLength_eq_ok_iff record step.field).2 ⟨h.number64 hwire rfl, rfl⟩
  case enum.enum variants ordinal => exact if_pos (h.ordinal hwire rfl)
  case text.text string =>
    exact (variableLength_eq_ok_iff record step.field).2 ⟨h.text hwire rfl, rfl⟩
  case bytes.bytes string =>
    exact (variableLength_eq_ok_iff record step.field).2 ⟨h.bytes hwire rfl, rfl⟩
  all_goals rfl

theorem stepLeaves_of_leaf (hwire : step.wire = .leaf kind) (value : Value) :
    stepLeaves planOf step value = [(kind, value)] := by
  cases value <;> simp only [stepLeaves, hwire]

theorem stepLeaves_of_nested {target : ρ} (hwire : step.wire = .nested target)
    (fields : List Value) :
    stepLeaves planOf step (.record fields) = stepsLeaves planOf (planOf target).steps fields := by
  simp only [stepLeaves, hwire]

/-- A fault of the value itself is the first thing that is wrong with its field. -/
theorem isFirst_of_faults {error : CodecError} (hfault : step.Faults limits record value error)
    (hother : ∀ target, step.wire = .nested target → ∀ fields, value ≠ .record fields) :
    IsFirst (FieldViolates planOf limits record depth step value) [] error := by
  refine ⟨.fault hfault, fun site' error' h => .inr ?_⟩
  cases h with
  | fault hfault' => exact ⟨rfl, hfault'.unique hfault⟩
  | nesting hwire => exact absurd rfl (hother _ hwire _)
  | inside hwire => exact absurd rfl (hother _ hwire _)

theorem stepLength_decides_of_leaf (hwire : step.wire = .leaf kind) :
    Decides (FieldViolates planOf limits record depth step value) (stepLeaves planOf step value)
      (stepLength planOf limits record counted step value) := by
  have hleaf (target : ρ) (hnested : step.wire = .nested target) : False := by
    cases hwire.symm.trans hnested
  rw [stepLength_of_leaf hwire, stepLeaves_of_leaf hwire]
  by_cases hfits : step.Fits limits value
  · rw [hfits.encodedLength hwire]
    refine ⟨fun site error h => ?_, (Nat.add_zero _).symm⟩
    cases h with
    | fault hfault => exact Step.fits_iff.1 hfits error hfault
    | nesting hnested => exact hleaf _ hnested
    | inside hnested => exact hleaf _ hnested
  · have hsome : ¬ ∀ error, ¬ step.Faults limits record value error :=
      mt Step.fits_iff.2 hfits
    obtain ⟨error, hfault⟩ := not_forall_not.1 hsome
    rw [hfault.encodedLength hwire]
    exact ⟨[], isFirst_of_faults hfault fun target hnested => (hleaf target hnested).elim⟩

/-- A nested record wants a list of values. -/
theorem stepLength_decides_of_other {target : ρ} (hwire : step.wire = .nested target)
    (hother : ∀ fields, value ≠ .record fields) :
    Decides (FieldViolates planOf limits record depth step value) (stepLeaves planOf step value)
      (stepLength planOf limits record counted step value) := by
  have hfault : step.Faults limits record value
      (.invalidValue record step.field (.typeMismatch step.wire.valueName value.kindName)) := by
    refine .kind ?_
    rw [hwire]
    cases value <;> simp [Wire.valueName, Value.kindName]
    exact hother _ rfl
  have herror : stepLength planOf limits record counted step value =
      .error (kindMismatch record step.field step.wire.valueName value) := by
    cases value <;> simp only [stepLength, hwire]
    exact absurd rfl (hother _)
  rw [herror]
  exact ⟨[], isFirst_of_faults hfault fun _ _ => hother⟩

end Fields

/-! ## Records -/

section Records

variable {ρ : Type} {planOf : ρ → Plan ρ} {limits : Limits} {depth counted : Nat}

theorem wireSizes_append (first second : List (Leaf × Value)) :
    wireSizes (first ++ second) = wireSizes first + wireSizes second := by
  rw [wireSizes, List.map_append, List.sum_append]
  rfl

/-- Where all fields pass the check, it adds up what they take. -/
theorem stepsLength_of_forall {record : String} {steps : List (Step ρ)} {values : List Value}
    (h : ∀ pair ∈ steps.zip values, stepLength planOf limits record depth pair.1 pair.2 =
      .ok (wireSizes (stepLeaves planOf pair.1 pair.2))) :
    stepsLength planOf limits record depth steps values =
      .ok (wireSizes (stepsLeaves planOf steps values)) := by
  induction steps generalizing values with
  | nil => cases values <;> rfl
  | cons step steps ih =>
    cases values with
    | nil => rfl
    | cons value values =>
      rw [List.zip_cons_cons, List.forall_mem_cons] at h
      rw [stepsLength, h.1, ih h.2, stepsLeaves, wireSizes_append]
      rfl

/-- The check stops at the first field that does not pass. -/
theorem stepsLength_of_error {record : String} {steps : List (Step ρ)} {values : List Value}
    {index : Nat} {step : Step ρ} {value : Value} {error : CodecError}
    (hfield : (steps.zip values)[index]? = some (step, value))
    (herror : stepLength planOf limits record depth step value = .error error)
    (hbefore : ∀ earlier < index, ∀ pair, (steps.zip values)[earlier]? = some pair →
      ∃ length, stepLength planOf limits record depth pair.1 pair.2 = .ok length) :
    stepsLength planOf limits record depth steps values = .error error := by
  induction index generalizing steps values with
  | zero =>
    cases steps with
    | nil => cases hfield
    | cons first steps =>
      cases values with
      | nil => cases hfield
      | cons front values =>
        cases hfield
        rw [stepsLength, herror]
        rfl
  | succ index ih =>
    cases steps with
    | nil => cases hfield
    | cons first steps =>
      cases values with
      | nil => cases hfield
      | cons front values =>
        obtain ⟨length, hlength⟩ := hbefore 0 (Nat.succ_pos index) (first, front) rfl
        have hrest : stepsLength planOf limits record depth steps values = .error error :=
          ih hfield fun earlier hearlier pair hpair =>
            hbefore (earlier + 1) (Nat.succ_lt_succ hearlier) pair hpair
        rw [stepsLength, hlength, hrest]
        rfl

theorem recordLength_decides_of_count_ne {record : ρ} {values : List Value}
    (hcount : values.length ≠ (planOf record).steps.length) :
    Decides (Violates planOf limits depth record values)
      (stepsLeaves planOf (planOf record).steps values)
      (recordLength planOf limits record counted values) := by
  have herror : recordLength planOf limits record counted values =
      .error (.fieldCountMismatch (planOf record).name (planOf record).steps.length
        values.length) := by
    rw [recordLength, Plan.checkCount, if_neg hcount]
    rfl
  rw [herror]
  refine ⟨[0], violates_iff.2 (.inl ⟨rfl, hcount, rfl⟩), fun site' error' h => ?_⟩
  rcases violates_iff.1 h with ⟨rfl, -, rfl⟩ | ⟨index, _, _, rest, -, rfl, -⟩
  · exact .inr ⟨rfl, rfl⟩
  · exact .inl (List.cons_lt_cons_iff.2 (.inl (Nat.succ_pos index)))

/-- What is wrong first with a field is wrong first with the record, if nothing is with the fields
before. -/
theorem isFirst_of_field {record : ρ} {values : List Value} {index : Nat} {step : Step ρ}
    {value : Value} {site : List Nat} {error : CodecError}
    (hcount : values.length = (planOf record).steps.length)
    (hfield : ((planOf record).steps.zip values)[index]? = some (step, value))
    (hfirst : IsFirst (FieldViolates planOf limits (planOf record).name depth step value) site
      error)
    (hbefore : ∀ earlier < index, ∀ step' value',
      ((planOf record).steps.zip values)[earlier]? = some (step', value') → ∀ site' error',
        ¬ FieldViolates planOf limits (planOf record).name depth step' value' site' error') :
    IsFirst (Violates planOf limits depth record values) ((index + 1) :: site) error := by
  obtain ⟨hviolates, hleast⟩ := hfirst
  refine ⟨violates_iff.2 (.inr ⟨index, step, value, site, hfield, rfl, hviolates⟩), ?_⟩
  intro site' error' h
  rcases violates_iff.1 h with ⟨-, hne, -⟩ | ⟨index', step', value', rest, hfield', rfl, hother⟩
  · exact absurd hcount hne
  · rcases Nat.lt_trichotomy index' index with hearlier | rfl | hlater
    · exact absurd hother (hbefore index' hearlier step' value' hfield' rest error')
    · cases hfield.symm.trans hfield'
      rcases hleast rest error' hother with hrest | ⟨rfl, rfl⟩
      · exact .inl (List.cons_lt_cons_iff.2 (.inr ⟨rfl, hrest⟩))
      · exact .inr ⟨rfl, rfl⟩
    · exact .inl (List.cons_lt_cons_iff.2 (.inl (Nat.succ_lt_succ hlater)))

/-- If the check of each field decides it, the check of the record decides the record. -/
theorem recordLength_decides {record : ρ} {values : List Value}
    (hfields : ∀ value ∈ values, ∀ step,
      DecidesCounted (FieldViolates planOf limits (planOf record).name depth step value)
        (stepLeaves planOf step value)
        (stepLength planOf limits (planOf record).name counted step value)) :
    DecidesCounted (Violates planOf limits depth record values)
      (stepsLeaves planOf (planOf record).steps values)
      (recordLength planOf limits record counted values) := by
  by_cases hcount : values.length = (planOf record).steps.length
  case neg => exact .inl (recordLength_decides_of_count_ne hcount)
  have hfield {step : Step ρ} {value : Value}
      (hmem : (step, value) ∈ (planOf record).steps.zip values) :
      DecidesCounted (FieldViolates planOf limits (planOf record).name depth step value)
        (stepLeaves planOf step value)
        (stepLength planOf limits (planOf record).name counted step value) :=
    hfields value (List.of_mem_zip hmem).2 step
  have hlength : recordLength planOf limits record counted values =
      stepsLength planOf limits (planOf record).name counted (planOf record).steps values := by
    rw [recordLength, checkCount_eq_ok_iff.2 hcount]
    rfl
  rw [hlength]
  -- The first field with which something is wrong decides; what comes behind it does not matter.
  rcases Outcome.forall_or_exists_first
    (fun pair : Step ρ × Value => ∀ site error,
      ¬ FieldViolates planOf limits (planOf record).name depth pair.1 pair.2 site error)
    ((planOf record).steps.zip values)
    with hnone | ⟨index, ⟨step, value⟩, hpair, hsome, hbefore⟩
  · rw [stepsLength_of_forall fun pair hmem => (hfield hmem).eq_ok (hnone pair hmem)]
    refine .inl ⟨fun site error h => ?_, rfl⟩
    rcases violates_iff.1 h with ⟨-, hne, -⟩ | ⟨index, step, value, rest, hpair, -, hviolates⟩
    · exact hne hcount
    · exact hnone _ (List.mem_of_getElem? hpair) rest error hviolates
  · have hbehind {rest : List Nat} {error : CodecError}
        (hfirst : IsFirst (FieldViolates planOf limits (planOf record).name depth step value) rest
          error) :
        IsFirst (Violates planOf limits depth record values) ((index + 1) :: rest) error :=
      isFirst_of_field hcount hpair hfirst fun earlier hearlier _ _ hpair' =>
        hbefore earlier hearlier _ hpair'
    rcases hfield (List.mem_of_getElem? hpair) with
      hdecides | ⟨rest, limit, reached, hreached, hfirst⟩
    · cases hstep : stepLength planOf limits (planOf record).name counted step value with
      | ok length => exact absurd (hdecides.eq_ok_iff.1 hstep).1 hsome
      | error error =>
        rw [stepsLength_of_error hpair hstep fun earlier hearlier pair hpair' =>
          ⟨_, (hfield (List.mem_of_getElem? hpair')).eq_ok (hbefore earlier hearlier pair hpair')⟩]
        obtain ⟨rest, hfirst⟩ := hdecides.eq_error_iff.1 hstep
        exact .inl ⟨(index + 1) :: rest, hbehind hfirst⟩
    · exact .inr ⟨(index + 1) :: rest, limit, reached, hreached, hbehind hfirst⟩

theorem Violates.site_ne_nil {record : ρ} {values : List Value} {site : List Nat}
    {error : CodecError} (h : Violates planOf limits depth record values site error) :
    [] < site := by
  rcases violates_iff.1 h with ⟨rfl, -⟩ | ⟨_, _, _, _, -, rfl, -⟩
  · exact List.nil_lt_cons 0 []
  · exact List.nil_lt_cons _ _

section Nested

variable {record : String} {step : Step ρ} {target : ρ} {fields : List Value}

theorem not_faults_of_nested (hwire : step.wire = .nested target) (error : CodecError) :
    ¬ step.Faults limits record (.record fields) error := by
  intro hfault
  cases hfault with
  | kind hkind => exact hkind (by rw [hwire]; rfl)

/-- A nested record that lies too deep is not looked into. -/
theorem isFirst_of_deep (hwire : step.wire = .nested target)
    (hcyclic : (planOf target).cyclic = true) (hlimit : limits.nestingDepth < depth + 1) :
    IsFirst (FieldViolates planOf limits record depth step (.record fields)) []
      (.limitExceeded .nestingDepth limits.nestingDepth (depth + 1)) := by
  refine ⟨.nesting hwire hcyclic hlimit, fun site' error' h => ?_⟩
  cases h with
  | fault hfault => exact absurd hfault (not_faults_of_nested hwire error')
  | nesting => exact .inr ⟨rfl, rfl⟩
  | inside _ h => exact .inl h.site_ne_nil

theorem stepLength_decides_of_deep (hwire : step.wire = .nested target)
    (hcyclic : (planOf target).cyclic = true) (hlimit : limits.nestingDepth < depth + 1) :
    DecidesCounted (FieldViolates planOf limits record depth step (.record fields))
      (stepLeaves planOf step (.record fields))
      (stepLength planOf limits record (min depth maxCount) step (.record fields)) := by
  have hfirst : IsFirst (FieldViolates planOf limits record depth step (.record fields)) []
      (.limitExceeded .nestingDepth limits.nestingDepth (depth + 1)) :=
    isFirst_of_deep hwire hcyclic hlimit
  by_cases hcounted : depth + 1 ≤ maxCount
  · have herror : stepLength planOf limits record (min depth maxCount) step (.record fields) =
        .error (.limitExceeded .nestingDepth limits.nestingDepth (depth + 1)) := by
      rw [stepLength_of_nested hwire, Limits.enter, hcyclic,
        Nat.min_eq_left (Nat.le_of_succ_le hcounted), Nat.min_eq_left hcounted]
      simp only [if_true, hlimit]
      rfl
    rw [herror]
    exact .inl ⟨[], hfirst⟩
  · exact .inr ⟨[], _, _, Nat.lt_of_not_le hcounted, hfirst⟩

/-- The check of a nested record that does not lie too deep is that of its fields, one level further
in if it reaches a cycle. -/
theorem stepLength_decides_of_entered (hwire : step.wire = .nested target)
    (hentered : ¬ ((planOf target).cyclic = true ∧ limits.nestingDepth < depth + 1))
    (hrecord : DecidesCounted
      (Violates planOf limits (depth + (planOf target).cyclic.toNat) target fields)
      (stepsLeaves planOf (planOf target).steps fields)
      (recordLength planOf limits target
        (min (depth + (planOf target).cyclic.toNat) maxCount) fields)) :
    DecidesCounted (FieldViolates planOf limits record depth step (.record fields))
      (stepLeaves planOf step (.record fields))
      (stepLength planOf limits record (min depth maxCount) step (.record fields)) := by
  have henter : limits.enter (planOf target).cyclic (min depth maxCount) =
      .ok (min (depth + (planOf target).cyclic.toNat) maxCount) := by
    cases hcyclic : (planOf target).cyclic with
    | false => rfl
    | true =>
      have hnext : min (min depth maxCount + 1) maxCount = min (depth + 1) maxCount := by omega
      have hwithin : ¬ limits.nestingDepth < min (depth + 1) maxCount := fun hlimit =>
        hentered ⟨hcyclic, Nat.lt_of_lt_of_le hlimit (Nat.min_le_left _ _)⟩
      rw [Limits.enter, hnext]
      simp only [if_true, hwithin, if_false]
      rfl
  have hlength : stepLength planOf limits record (min depth maxCount) step (.record fields) =
      recordLength planOf limits target (min (depth + (planOf target).cyclic.toNat) maxCount)
        fields := by
    rw [stepLength_of_nested hwire, henter]
    rfl
  rw [hlength, stepLeaves_of_nested hwire]
  refine hrecord.congr fun site error => ⟨fun h => ?_, fun h => .inside hwire h⟩
  cases h with
  | fault hfault => exact absurd hfault (not_faults_of_nested hwire error)
  | nesting hwire' hcyclic hlimit =>
    obtain rfl := Wire.nested.inj (hwire'.symm.trans hwire)
    exact absurd ⟨hcyclic, hlimit⟩ hentered
  | inside hwire' h =>
    obtain rfl := Wire.nested.inj (hwire'.symm.trans hwire)
    exact h

end Nested

/-- The check of a value decides it.  It counts the depth, but not beyond the greatest count. -/
theorem stepLength_decides (record : String) (depth : Nat) (step : Step ρ) (value : Value) :
    DecidesCounted (FieldViolates planOf limits record depth step value)
      (stepLeaves planOf step value)
      (stepLength planOf limits record (min depth maxCount) step value) := by
  induction value using Value.induction generalizing record depth step with
  | hother value hother =>
    cases hwire : step.wire with
    | leaf kind => exact .inl (stepLength_decides_of_leaf hwire)
    | nested target => exact .inl (stepLength_decides_of_other hwire hother)
  | hrecord fields ih =>
    cases hwire : step.wire with
    | leaf kind => exact .inl (stepLength_decides_of_leaf hwire)
    | nested target =>
      by_cases hdeep : (planOf target).cyclic = true ∧ limits.nestingDepth < depth + 1
      · exact stepLength_decides_of_deep hwire hdeep.1 hdeep.2
      · apply stepLength_decides_of_entered hwire hdeep
        exact recordLength_decides fun value hmem step => ih value hmem _ _ step

/-- No record inside others lies deeper than there are records inside each other. -/
theorem Inside.reached_le {record inner : ρ} {values fields : List Value} {site : List Nat}
    {reached : Nat} (h : Inside planOf depth record values site reached inner fields) :
    reached ≤ depth + Value.heights values := by
  induction h with
  | here depth record values => exact Nat.le_add_right _ _
  | @field depth index reached record target inner site step values nested fields hfield _ _ ih =>
    have hmem : Value.record nested ∈ values := (List.of_mem_zip (List.mem_of_getElem? hfield)).2
    have hheight := Value.height_le_heights hmem
    have hflag := (planOf target).cyclic.toNat_le
    rw [Value.height] at hheight
    omega

theorem not_uncountedFirst {record : ρ} {values : List Value}
    (hheights : depth + Value.heights values ≤ maxCount) :
    ¬ UncountedFirst (Violates planOf limits depth record values) := by
  rintro ⟨site, limit, reached, hreached, hviolates, -⟩
  cases hviolates with
  | nesting hinside =>
    have hle := hinside.reached_le
    omega
  | field _ _ hfault => cases hfault

end Records

/-! ## Programs -/

/-- The check decides all values, unless a depth that is not counted comes first. -/
theorem Program.encodedLength_decides (program : Program) (limits : Limits)
    (values : List Value) :
    DecidesCounted (Violates program.plan limits 0 0 values)
      (stepsLeaves program.plan program.root.steps values)
      (program.encodedLength limits values) :=
  recordLength_decides fun value _ step => stepLength_decides (program.plan 0).name 0 step value

/-- As long as values are nested less than 2⁶⁴ deep, the check decides them. -/
theorem Program.encodedLength_decides_of_heights (program : Program) (limits : Limits)
    {values : List Value} (hheights : Value.heights values < 2 ^ 64) :
    Decides (Violates program.plan limits 0 0 values)
      (stepsLeaves program.plan program.root.steps values)
      (program.encodedLength limits values) := by
  refine (program.encodedLength_decides limits values).resolve_right (not_uncountedFirst ?_)
  rw [maxCount, UInt64.size]
  omega

/-- The check is sound and complete, and it reports the first fault.  For every program, limits and
values nested less than 2⁶⁴ deep: the check gives a length if and only if the values conform, and it
is the sum of what all leaves take on the wire; and it gives an error if and only if that is the
first violation, in the order of the sites. -/
theorem Program.encodedLength_iff (program : Program) (limits : Limits) {values : List Value}
    (hheights : Value.heights values < 2 ^ 64) :
    (∀ length, program.encodedLength limits values = .ok length ↔
      Conforms program.plan limits 0 0 values ∧
        length = wireSizes (stepsLeaves program.plan program.root.steps values)) ∧
    ∀ error, program.encodedLength limits values = .error error ↔
      ∃ site, IsFirst (Violates program.plan limits 0 0 values) site error := by
  have hdecides := program.encodedLength_decides_of_heights limits hheights
  refine ⟨fun length => ?_, fun error => hdecides.eq_error_iff⟩
  rw [hdecides.eq_ok_iff, conforms_iff (Nat.zero_le limits.nestingDepth)]

namespace Sample

/-- A label conforms, and its leaves take seven bytes.  If the second number of its point is too
large and its text is no text, the number is the first fault. -/
theorem label_checked :
    (Conforms labelCore.program.plan labelCore.limits 0 0 labelValues ∧
      wireSizes (stepsLeaves labelCore.program.plan labelCore.program.root.steps labelValues) = 7) ∧
    ∃ site, IsFirst (Violates labelCore.program.plan labelCore.limits 0 0
      [.record [.int16 1, .int32 300], .int8 0]) site
        (.invalidValue "Point" "y" (.unsignedOutOfRange .u8 300)) := by
  have hheights : Value.heights labelValues < 2 ^ 64 := by decide
  have hheights' : Value.heights [.record [.int16 1, .int32 300], .int8 0] < 2 ^ 64 := by decide
  obtain ⟨hconforms, hlength⟩ :=
    ((labelCore.program.encodedLength_iff labelCore.limits hheights).1 7).1 rfl
  exact ⟨⟨hconforms, hlength.symm⟩,
    ((labelCore.program.encodedLength_iff labelCore.limits hheights').2 _).1 rfl⟩

end Sample

end RecordCodec
