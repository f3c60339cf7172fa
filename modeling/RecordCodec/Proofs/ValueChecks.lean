import RecordCodec.Proofs.Codec.TypedValues
import RecordCodec.Proofs.ConstantLength

/-!
# Two checks of values

Values are checked twice: before they are written, by the program, and when data are made of them,
by the declared types.  The two agree.  Values that pass the first check fit the types.  Values that
fit the types pass the first check, or are too large for an unsigned number or too long.  And a
record with a wrong number of values, or a value of the wrong kind, is reported by both with the
same error, unless something else is wrong before.
-/

namespace RecordCodec

variable {n : Nat}

/-- The error is that a value of the right kind is too large for its width, or too long. -/
def CodecError.OutOfBounds : CodecError → Prop
  | invalidValue _ _ (.unsignedOutOfRange _ _) | invalidValue _ _ (.tooLong _ _) => True
  | _ => False

/-- The error is that there are more or fewer values than fields, or that a value is of the wrong
kind. -/
def CodecError.WrongShape : CodecError → Prop
  | fieldCountMismatch _ _ _ | invalidValue _ _ (.typeMismatch _ _) => True
  | _ => False

theorem CodecError.OutOfBounds.not_wrongShape {error : CodecError} (h : error.OutOfBounds) :
    ¬ error.WrongShape := by
  intro hshape
  cases error with
  | invalidValue record field fault => cases fault <;> first | exact h | exact hshape
  | _ => exact h

theorem CodecError.WrongShape.atField {error : CodecError} (h : error.WrongShape)
    (record field : String) : error.atField record field = error := by
  cases error with
  | valueMismatch => exact h.elim
  | _ => rfl

def CodecError.Misfit : CodecError → Prop
  | fieldCountMismatch _ _ _ | valueMismatch _ _ | invalidValue _ _ _ => True
  | _ => False

theorem CodecError.WrongShape.misfit {error : CodecError} (h : error.WrongShape) :
    error.Misfit := by
  cases error with
  | fieldCountMismatch | invalidValue => trivial
  | _ => exact h.elim

/-- Reading never fails because of values. -/
theorem CodecError.FoundInSource.not_misfit {error : CodecError} (h : error.FoundInSource) :
    ¬ error.Misfit := by
  intro hmisfit
  cases h with
  | leaf hleaf => cases error <;> first | exact hleaf | exact hmisfit
  | depth | short => exact hmisfit

/-! ## Outcomes that agree -/

/-- What passes the check fits; what fits passes, or is only out of bounds; and where the check
finds a wrong shape, nothing fits for just that reason. -/
structure ChecksAgree {α β : Type} (checked : Except CodecError α)
    (fitted : Except CodecError β) : Prop where
  fits : ∀ value, checked = .ok value → ∃ result, fitted = .ok result
  bounds : ∀ result error, fitted = .ok result → checked = .error error → error.OutOfBounds
  same : ∀ error, checked = .error error → error.WrongShape → fitted = .error error

namespace ChecksAgree

variable {α α' β β' : Type} {checked : Except CodecError α} {fitted : Except CodecError β}

theorem ok (value : α) (result : β) :
    ChecksAgree (.ok value : Except CodecError α) (.ok result : Except CodecError β) :=
  ⟨fun _ _ => ⟨result, rfl⟩, nofun, nofun⟩

theorem error (error : CodecError) :
    ChecksAgree (.error error : Except CodecError α) (.error error : Except CodecError β) :=
  ⟨nofun, nofun, fun _ heq _ => Except.error.inj heq ▸ rfl⟩

theorem outOfBounds {error : CodecError} (h : error.OutOfBounds)
    (fitted : Except CodecError β) : ChecksAgree (.error error : Except CodecError α) fitted :=
  ⟨nofun, fun _ _ _ heq => Except.error.inj heq ▸ h,
    fun _ heq hshape => absurd hshape (Except.error.inj heq ▸ h.not_wrongShape)⟩

/-- What neither passes nor fits, for reasons that need not be the same. -/
theorem refused {error : CodecError} (h : ¬ error.WrongShape)
    (hfitted : ∀ result, fitted ≠ .ok result) :
    ChecksAgree (.error error : Except CodecError α) fitted :=
  ⟨nofun, fun result _ heq => absurd heq (hfitted result),
    fun _ heq hshape => absurd hshape (Except.error.inj heq ▸ h)⟩

theorem bind {next : α → Except CodecError α'} {next' : β → Except CodecError β'}
    (hfirst : ChecksAgree checked fitted)
    (hnext : ∀ value result, checked = .ok value → fitted = .ok result →
      ChecksAgree (next value) (next' result)) :
    ChecksAgree (checked >>= next) (fitted >>= next') := by
  cases checked with
  | ok value =>
    obtain ⟨result, rfl⟩ := hfirst.fits value rfl
    exact hnext value result rfl rfl
  | error fault =>
    constructor
    · exact nofun
    · intro result other hresult hother
      cases hother
      obtain ⟨inner, hinner, -⟩ := Outcome.bind_eq_ok_iff.1 hresult
      exact hfirst.bounds inner fault hinner rfl
    · intro other hother hshape
      cases hother
      rw [hfirst.same fault rfl hshape]
      rfl

theorem map (f : β → β') (h : ChecksAgree checked fitted) :
    ChecksAgree checked (f <$> fitted) := by
  rw [map_eq_pure_bind, ← bind_pure checked]
  exact h.bind fun value result _ _ => ok value (f result)

/-- An error of the wrong shape already names its field. -/
theorem atField (h : ChecksAgree checked fitted) (record field : String) :
    ChecksAgree checked (fitted.mapError (.atField record field)) := by
  constructor
  · intro value hvalue
    obtain ⟨result, rfl⟩ := h.fits value hvalue
    exact ⟨result, rfl⟩
  · intro result fault hresult hfault
    cases fitted with
    | ok inner => exact h.bounds inner fault rfl hfault
    | error inner => cases hresult
  · intro fault hfault hshape
    rw [h.same fault hfault hshape]
    exact congrArg Except.error (hshape.atField record field)

end ChecksAgree

/-! ## Leaves -/

/-- Values of a type other than a record travel as this leaf. -/
inductive FieldType.TravelsAs : FieldType n → Leaf → Prop
  | int8 : TravelsAs .int8 .int8
  | int16 : TravelsAs .int16 .int16
  | int32 : TravelsAs .int32 .int32
  | int64 : TravelsAs .int64 .int64
  | float32 : TravelsAs .float32 .float32
  | float64 : TravelsAs .float64 .float64
  | char16 : TravelsAs .char16 .char16
  | unsigned32 (width : Width) : TravelsAs .int32 (.unsigned32 width)
  | unsigned64 (width : Width) : TravelsAs .int64 (.unsigned64 width)
  | enum (variants : Nat) : TravelsAs (.enum variants) (.enum variants)
  | text : TravelsAs .text .text
  | bytes : TravelsAs .bytes .bytes

theorem FieldType.TravelsAs.ne_record {type : FieldType n} {kind : Leaf} (h : type.TravelsAs kind)
    (record : RecordId n) : type ≠ .record record := by
  cases h <;> exact nofun

theorem FieldType.travelsAs {type : FieldType n} (hunboxed : ∀ inner, type ≠ .boxed inner)
    {name record : String} {override : WidthOverride} {kind : Leaf}
    (hwire : ({ name, kind := type.kind, override } : FieldDef n).wire record = .ok (.leaf kind)) :
    type.TravelsAs kind := by
  cases type with
  | boxed inner => exact absurd rfl (hunboxed inner)
  | enum variants =>
    cases override <;> by_cases hmany : maxVariants < variants <;>
      simp [FieldDef.wire, WidthOverride.width?, FieldType.kind, hmany] at hwire
    exact hwire ▸ .enum variants
  | _ =>
    cases override <;> simp [FieldDef.wire, WidthOverride.width?, FieldType.kind] at hwire <;>
      subst hwire <;> constructor

/-- A member that is resolved to a leaf is of such a type, in whatever boxes. -/
theorem Member.travelsAs {member : Member n} {record : String} {kind : Leaf}
    (hwire : member.field.wire record = .ok (.leaf kind)) : member.type.unboxed.TravelsAs kind := by
  rw [field, ← member.type.kind_unboxed] at hwire
  exact FieldType.travelsAs member.type.unboxed_ne_boxed hwire

theorem unsignedLength_checksAgree {β : Type} (record field : String) (width : Width)
    (value : Int64) (datum : β) :
    ChecksAgree (unsignedLength record field width value) (.ok datum) := by
  rw [unsignedLength]
  split
  · exact .ok _ _
  · apply ChecksAgree.outOfBounds
    trivial

theorem variableLength_checksAgree {β : Type} (record field : String) (limits : Limits)
    (length : Nat) (datum : β) :
    ChecksAgree (variableLength record field limits length) (.ok datum) := by
  rw [variableLength]
  split
  · apply ChecksAgree.outOfBounds
    trivial
  · exact .ok _ _

/-- A leaf is checked and fitted alike. -/
theorem FieldType.TravelsAs.checksAgree {type : FieldType n} {kind : Leaf}
    (h : type.TravelsAs kind) (record field : String) (limits : Limits) (value : Value) :
    ChecksAgree (kind.encodedLength record field limits value)
      ((type.ofLeafValue value).mapError (.atField record field)) := by
  cases h with
  | unsigned32 width =>
    cases value with
    | int32 number => exact unsignedLength_checksAgree record field width _ _
    | _ => exact .error _
  | unsigned64 width =>
    cases value with
    | int64 number => exact unsignedLength_checksAgree record field width _ _
    | _ => exact .error _
  | text =>
    cases value with
    | text string => exact variableLength_checksAgree record field limits _ _
    | _ => exact .error _
  | bytes =>
    cases value with
    | bytes string => exact variableLength_checksAgree record field limits _ _
    | _ => exact .error _
  | enum variants =>
    cases value with
    | enum ordinal =>
      by_cases hvariant : ordinal < variants
      · simp only [Leaf.encodedLength, FieldType.ofLeafValue, hvariant, if_true, dite_true]
        exact .ok _ _
      · simp only [Leaf.encodedLength, FieldType.ofLeafValue, hvariant, if_false, dite_false]
        exact .refused id nofun
    | _ => exact .error _
  | _ => cases value <;> first | exact .ok _ _ | exact .error _

/-! ## Records -/

section Records

variable {types : TypeTable n} {limits : Limits} {record : RecordId n}

/-- The error of a field that nests a record and holds something else. -/
theorem FieldType.ofValue_of_other {type : FieldType n} {target : RecordId n} {value : Value}
    (htype : type.unboxed = .record target) (hother : ∀ fields, value ≠ .record fields) :
    type.ofValue types value = .error (.valueMismatch "nested record" value.kindName) := by
  rw [type.ofValue_eq_ofLeafValue (.inr hother), htype]
  cases value <;> rfl

theorem checkCount_checksAgree {declaration : Declaration n}
    (hrecord : types record = .declared declaration) (values : List Value) :
    ChecksAgree (types.catalog.checkCount record values)
      (checkFieldCount declaration.name declaration.members.length values) := by
  rw [Catalog.checkCount, checkFieldCount, TypeTable.name_of_declared hrecord,
    TypeTable.fields_of_declared hrecord, List.length_map]
  split
  · exact .ok _ _
  · exact .error _

/-- A value that is checked and fitted alike, whatever declared member it is for. -/
def Value.ChecksAlike (types : TypeTable n) (limits : Limits) (value : Value) : Prop :=
  ∀ (record : RecordId n) (declaration : Declaration n), types record = .declared declaration →
    types.catalog.Accepts record → types.DeclaredThroughout record →
    ∀ member ∈ declaration.members, ∀ depth,
      ChecksAgree (types.catalog.fieldLength limits record depth member.field value)
        ((member.type.ofValue types value).mapError (.atField declaration.name member.name))

/-- Members and fields are gone through in the same order. -/
theorem fieldsLength_checksAgree {declaration : Declaration n}
    (hrecord : types record = .declared declaration) (haccepts : types.catalog.Accepts record)
    (hdeclared : types.DeclaredThroughout record) (depth : Nat) {members : List (Member n)}
    (hmembers : members ⊆ declaration.members) {values : List Value}
    (hvalues : ∀ value ∈ values, value.ChecksAlike types limits)
    (hcount : values.length = members.length) :
    ChecksAgree (types.catalog.fieldsLength limits record depth (members.map Member.field) values)
      (Member.ofValues types declaration.name members values) := by
  induction members generalizing values with
  | nil =>
    rw [List.length_eq_zero_iff.1 hcount]
    simp only [List.map_nil, Catalog.fieldsLength, Member.ofValues]
    exact .ok 0 []
  | cons member members ih =>
    cases values with
    | nil => cases hcount
    | cons value values =>
      obtain ⟨hmember, hothers⟩ := List.cons_subset.1 hmembers
      obtain ⟨hvalue, hvalues'⟩ := List.forall_mem_cons.1 hvalues
      rw [List.map_cons, Catalog.fieldsLength_cons, Member.ofValues]
      apply (hvalue record declaration hrecord haccepts hdeclared member hmember depth).bind
      intro first datum _ _
      apply (ih hothers hvalues' (Nat.succ.inj hcount)).bind
      intro rest others _ _
      exact .ok _ _

theorem record_checksAgree (haccepts : types.catalog.Accepts record)
    (hdeclared : types.DeclaredThroughout record) (depth : Nat) {values : List Value}
    (hvalues : ∀ value ∈ values, value.ChecksAlike types limits) :
    ChecksAgree (do
        types.catalog.checkCount record values
        types.catalog.fieldsLength limits record depth (types.catalog record).fields values)
      (types.ofValues record values) := by
  obtain ⟨declaration, hrecord⟩ := hdeclared record .refl
  rw [TypeTable.ofValues_of_declared hrecord, TypeTable.fields_of_declared hrecord]
  apply (checkCount_checksAgree hrecord values).bind
  intro _ _ _ hcount
  exact fieldsLength_checksAgree hrecord haccepts hdeclared depth (fun _ hmem => hmem) hvalues
    (checkFieldCount_eq_ok_iff.1 hcount)

/-- A member of an accepted record travels as a leaf, or it is a nested record. -/
theorem wire_of_member {declaration : Declaration n}
    (hrecord : types record = .declared declaration) (haccepts : types.catalog.Accepts record)
    {member : Member n} (hmember : member ∈ declaration.members) :
    (∃ kind, member.field.wire (types.catalog record).name = .ok (.leaf kind)) ∨
      ∃ target, member.field.wire (types.catalog record).name = .ok (.nested target) ∧
        member.type.unboxed = .record target := by
  have hfield : member.field ∈ (types.catalog record).fields := by
    rw [TypeTable.fields_of_declared hrecord]
    exact List.mem_map_of_mem hmember
  obtain ⟨wire, hwire⟩ := haccepts record .refl member.field hfield
  cases wire with
  | leaf kind => exact .inl ⟨kind, hwire⟩
  | nested target =>
    exact .inr ⟨target, hwire,
      FieldType.unboxed_eq_record_iff.2 (FieldDef.wire_eq_nested_iff.1 hwire).2⟩

section Fields

variable {declaration : Declaration n} (hrecord : types record = .declared declaration)
variable {member : Member n} {depth : Nat}
include hrecord

theorem checksAgree_of_leaf {kind : Leaf}
    (hwire : member.field.wire (types.catalog record).name = .ok (.leaf kind)) (value : Value) :
    ChecksAgree (types.catalog.fieldLength limits record depth member.field value)
      ((member.type.ofValue types value).mapError (.atField declaration.name member.name)) := by
  have htravels := Member.travelsAs hwire
  rw [Catalog.fieldLength_of_leaf hwire, TypeTable.name_of_declared hrecord,
    member.type.ofValue_eq_ofLeafValue (.inl htravels.ne_record)]
  exact htravels.checksAgree declaration.name member.name limits value

theorem checksAgree_of_other {target : RecordId n}
    (hwire : member.field.wire (types.catalog record).name = .ok (.nested target))
    (htype : member.type.unboxed = .record target) {value : Value}
    (hother : ∀ fields, value ≠ .record fields) :
    ChecksAgree (types.catalog.fieldLength limits record depth member.field value)
      ((member.type.ofValue types value).mapError (.atField declaration.name member.name)) := by
  rw [Catalog.fieldLength_of_other hwire hother, TypeTable.name_of_declared hrecord,
    FieldType.ofValue_of_other htype hother]
  exact .error _

end Fields

/-- The depth limit stops the one check only on the way to a cycle, where nothing fits anyway. -/
theorem checksAgree_of_nested {name : String} {member : Member n} {target : RecordId n}
    {depth : Nat}
    (hwire : member.field.wire (types.catalog record).name = .ok (.nested target))
    (htype : member.type.unboxed = .record target) (hdeclared : types.DeclaredThroughout target)
    {fields : List Value}
    (hfields : ∀ inner, ChecksAgree (do
        types.catalog.checkCount target fields
        types.catalog.fieldsLength limits target inner (types.catalog target).fields fields)
      (types.ofValues target fields)) :
    ChecksAgree (types.catalog.fieldLength limits record depth member.field (.record fields))
      ((member.type.ofValue types (.record fields)).mapError
        (.atField name member.name)) := by
  rw [Catalog.fieldLength_of_nested hwire, FieldType.ofValue_record htype]
  apply ChecksAgree.atField
  apply ChecksAgree.map
  cases henter : limits.enter (types.catalog.isInfinitelyNested target) depth with
  | ok inner => exact hfields inner
  | error error =>
    -- Fitting knows no depth, so it has to fail for a reason of its own.
    have hcycle : types.catalog.ReachesCycle target := by
      apply Catalog.isInfinitelyNested_iff.1
      cases hflag : types.catalog.isInfinitelyNested target with
      | true => rfl
      | false =>
        rw [hflag] at henter
        cases henter
    exact .refused (fun hshape => (Limits.enter_finds henter).not_misfit hshape.misfit)
      (TypeTable.ofValues_ne_ok_of_reachesCycle hdeclared hcycle fields)

theorem Value.checksAlike (types : TypeTable n) (limits : Limits) (value : Value) :
    value.ChecksAlike types limits := by
  induction value using Value.induction with
  | hother value hother =>
    intro record declaration hrecord haccepts hdeclared member hmember depth
    rcases wire_of_member hrecord haccepts hmember with ⟨kind, hwire⟩ | ⟨target, hwire, htype⟩
    · exact checksAgree_of_leaf hrecord hwire value
    · exact checksAgree_of_other hrecord hwire htype hother
  | hrecord fields ih =>
    intro record declaration hrecord haccepts hdeclared member hmember depth
    rcases wire_of_member hrecord haccepts hmember with ⟨kind, hwire⟩ | ⟨target, hwire, htype⟩
    · exact checksAgree_of_leaf hrecord hwire _
    · have hnests := TypeTable.nests_of_member hrecord hmember htype
      have hdeclared' := hdeclared.of_nests hnests
      exact checksAgree_of_nested hwire htype hdeclared' fun inner =>
        record_checksAgree (haccepts.of_reaches (.single hnests)) hdeclared' inner ih

/-- The values of a declared record are checked and fitted alike. -/
theorem writtenLength_checksAgree (haccepts : types.catalog.Accepts record)
    (hdeclared : types.DeclaredThroughout record) (values : List Value) :
    ChecksAgree (types.catalog.writtenLength limits record values)
      (types.ofValues record values) :=
  record_checksAgree haccepts hdeclared 0 fun value _ => value.checksAlike types limits

end Records

/-! ## Core codecs -/

namespace CoreCodec

variable {core : CoreCodec n}

theorem GeneratedUnder.encodedLength_eq {catalog : Catalog n} {record : RecordId n}
    (hcore : core.GeneratedUnder catalog record) (values : List Value) :
    core.encodedLength values = catalog.writtenLength core.limits record values := by
  obtain ⟨root, found, registry, -, hflattens, rfl, houtcome⟩ := hcore.exists_flattens
  exact ((hflattens.flattensInto houtcome).interpretedBy core.limits).check values

variable {types : TypeTable n} {record : RecordId n}

theorem GeneratedUnder.checksAgree (hcore : core.GeneratedUnder types.catalog record)
    (hdeclared : types.DeclaredThroughout record) (values : List Value) :
    ChecksAgree (core.encodedLength values) (types.ofValues record values) := by
  rw [hcore.encodedLength_eq]
  exact writtenLength_checksAgree hcore.accepts hdeclared values

/-- The two checks of values agree.  Let a core codec be generated for a declared record that nests
none but declared ones.  Values that pass the codec's check fit the record.  Values that fit the
record pass the check, or it fails because an unsigned number does not fit its width or a text or
byte string is too long.  If the check finds a wrong number of values or a value of the wrong kind,
fitting the values fails with the very same error; and that is what both do if such an error is the
first of all that is wrong with the values, in the order of the sites. -/
theorem GeneratedUnder.checks_agree (hcore : core.GeneratedUnder types.catalog record)
    (hdeclared : types.DeclaredThroughout record) (values : List Value) :
    (∀ length, core.encodedLength values = .ok length →
      ∃ data, types.ofValues record values = .ok data) ∧
    (∀ data, types.ofValues record values = .ok data →
      (∃ length, core.encodedLength values = .ok length) ∨
        ∃ error, core.encodedLength values = .error error ∧ error.OutOfBounds) ∧
    (∀ error, core.encodedLength values = .error error → error.WrongShape →
      types.ofValues record values = .error error) ∧
    ∀ site error, IsFirst (Violates core.program.plan core.limits 0 0 values) site error →
      error.WrongShape →
        core.encodedLength values = .error error ∧
          types.ofValues record values = .error error := by
  have hagree := hcore.checksAgree hdeclared values
  refine ⟨hagree.fits, fun data hdata => ?_, hagree.same, ?_⟩
  · cases hlength : core.encodedLength values with
    | ok length => exact .inl ⟨length, rfl⟩
    | error error => exact .inr ⟨error, rfl, hagree.bounds data error hdata hlength⟩
  · intro site error hfirst hshape
    have hdecides := core.program.encodedLength_decides core.limits values
    have hlength : core.encodedLength values = .error error :=
      hdecides.eq_error hfirst fun _ _ heq => by
        rw [heq] at hshape
        exact hshape
    exact ⟨hlength, hagree.same error hlength hshape⟩

end CoreCodec

namespace Sample

def labelTypes : TypeTable 2
  | 0 => .declared {
      name := "Label"
      members := [⟨"at", .boxed (.record 1), .none⟩, ⟨"text", .text, .none⟩] }
  | 1 => .declared { name := "Point", members := [⟨"x", .int16, .none⟩, ⟨"y", .int32, .asU8⟩] }

theorem labelTypes_catalog : labelTypes.catalog = catalog := by
  funext record
  match record with
  | 0 => rfl
  | 1 => rfl

theorem labelTypes_declaredThroughout : labelTypes.DeclaredThroughout 0 := by
  intro inner _
  match inner with
  | 0 => exact ⟨_, rfl⟩
  | 1 => exact ⟨_, rfl⟩

theorem labelCore_generatedUnder_labelTypes : labelCore.GeneratedUnder labelTypes.catalog 0 := by
  rw [labelTypes_catalog]
  exact labelCore_generatedUnder

/-- In a label whose text is no text, a number of the wrong kind in its point comes first, and both
checks report it for the point.  A number that is only too large is reported by one of them. -/
theorem label_checks :
    labelCore.GeneratedUnder labelTypes.catalog 0 ∧ labelTypes.DeclaredThroughout 0 ∧
      labelCore.encodedLength [.record [.int16 1, .int8 7], .int8 0] =
        .error (.invalidValue "Point" "y" (.typeMismatch "int32" "int8")) ∧
      labelTypes.ofValues 0 [.record [.int16 1, .int8 7], .int8 0] =
        .error (.invalidValue "Point" "y" (.typeMismatch "int32" "int8")) ∧
      (∃ data, labelTypes.ofValues 0 labelValues = .ok data) ∧
      ∃ error, labelCore.encodedLength [.record [.int16 1, .int32 300], .text "ab"] =
        .error error ∧ error.OutOfBounds := by
  have hagree := labelCore_generatedUnder_labelTypes.checks_agree labelTypes_declaredThroughout
  have hcheck : labelCore.encodedLength [.record [.int16 1, .int8 7], .int8 0] =
      .error (.invalidValue "Point" "y" (.typeMismatch "int32" "int8")) := rfl
  have hheights : Value.heights [.record [.int16 1, .int8 7], .int8 0] < 2 ^ 64 := by decide
  have hdecides := labelCore.program.encodedLength_decides_of_heights labelCore.limits hheights
  obtain ⟨site, hfirst⟩ := hdecides.eq_error_iff.1 hcheck
  obtain ⟨-, hboth⟩ := (hagree _).2.2.2 site _ hfirst trivial
  refine ⟨labelCore_generatedUnder_labelTypes, labelTypes_declaredThroughout, hcheck, hboth,
    (hagree labelValues).1 7 rfl, ?_⟩
  rcases (hagree [.record [.int16 1, .int32 300], .text "ab"]).2.1 _ rfl with
    ⟨length, hlength⟩ | hbounds
  · cases hlength
  · exact hbounds

end Sample

end RecordCodec
