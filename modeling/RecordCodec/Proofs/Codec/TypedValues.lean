import RecordCodec.Host.Datum
import RecordCodec.Proofs.FirstFault

/-!
# Typed data and their values

Data are fitted to the values of a declared record member by member, each of them by its own type,
as the values are handed out one by one.  Whatever data fit some values, their values are these
again.  A declared record that reaches a cycle fits no values at all: they would lie inside each
other without end.
-/

namespace RecordCodec

variable {n : Nat}

def Member.field (member : Member n) : FieldDef n where
  name := member.name
  kind := member.type.kind
  override := member.override

/-- All records that are reached from `record`, itself among them, are declared. -/
def TypeTable.DeclaredThroughout (types : TypeTable n) (record : RecordId n) : Prop :=
  ∀ inner, types.catalog.Reaches record inner → ∃ declaration, types inner = .declared declaration

/-! ## Types without boxes -/

theorem FieldType.kind_unboxed (type : FieldType n) : type.unboxed.kind = type.kind := by
  induction type with
  | boxed inner ih => exact ih
  | _ => rfl

theorem FieldType.unboxed_ne_boxed (type inner : FieldType n) : type.unboxed ≠ .boxed inner := by
  induction type with
  | boxed _ ih => exact ih
  | _ => exact nofun

theorem FieldType.unboxed_eq_record_iff {type : FieldType n} {target : RecordId n} :
    type.unboxed = .record target ↔ type.kind = .nested target := by
  rw [← type.kind_unboxed]
  constructor
  · intro h
    rw [h]
    rfl
  · intro h
    cases hunboxed : type.unboxed with
    | record other =>
      rw [hunboxed] at h
      exact congrArg _ (FieldKind.nested.inj h)
    | boxed inner => exact absurd hunboxed (type.unboxed_ne_boxed inner)
    | _ =>
      rw [hunboxed] at h
      cases h

/-! ## Declared records -/

section Declared

variable {types : TypeTable n} {record target : RecordId n} {declaration : Declaration n}
variable (hdeclared : types record = .declared declaration)
include hdeclared

theorem TypeTable.catalog_of_declared : types.catalog record = declaration.definition := by
  rw [catalog, hdeclared]
  rfl

theorem TypeTable.name_of_declared : (types.catalog record).name = declaration.name := by
  rw [catalog_of_declared hdeclared]
  rfl

theorem TypeTable.fields_of_declared :
    (types.catalog record).fields = declaration.members.map Member.field := by
  rw [catalog_of_declared hdeclared]
  rfl

theorem TypeTable.nests_of_member {member : Member n} (hmember : member ∈ declaration.members)
    (htype : member.type.unboxed = .record target) : types.catalog.Nests record target := by
  rw [Catalog.nests_iff, fields_of_declared hdeclared]
  exact ⟨member.field, List.mem_map_of_mem hmember, FieldType.unboxed_eq_record_iff.1 htype⟩

theorem TypeTable.exists_member_of_nests (hnests : types.catalog.Nests record target) :
    ∃ member ∈ declaration.members, member.type.unboxed = .record target := by
  rw [Catalog.nests_iff, fields_of_declared hdeclared] at hnests
  obtain ⟨field, hfield, hkind⟩ := hnests
  obtain ⟨member, hmember, rfl⟩ := List.mem_map.1 hfield
  exact ⟨member, hmember, FieldType.unboxed_eq_record_iff.2 hkind⟩

theorem TypeTable.ofValues_of_declared (values : List Value) :
    types.ofValues record values = (do
      checkFieldCount declaration.name declaration.members.length values
      Member.ofValues types declaration.name declaration.members values) := by
  rw [ofValues, hdeclared]

end Declared

/-! ## Fitting values -/

section Fitting

variable {types : TypeTable n} {record : RecordId n}

/-- A nested record is fitted as it would be by itself. -/
theorem FieldType.ofValue_record {type : FieldType n} (htype : type.unboxed = .record record)
    (values : List Value) :
    type.ofValue types (.record values) = .record <$> types.ofValues record values := by
  rw [FieldType.ofValue, htype, TypeTable.ofValues]
  cases hrecord : types record with
  | plain definition =>
    simp only [hrecord]
    rfl
  | declared declaration => simp only [hrecord, map_eq_pure_bind, bind_assoc]

theorem FieldType.ofValue_record_eq_ok_iff {type : FieldType n}
    (htype : type.unboxed = .record record) {values : List Value} {datum : Datum} :
    type.ofValue types (.record values) = .ok datum ↔
      ∃ data, types.ofValues record values = .ok data ∧ .record data = datum := by
  rw [ofValue_record htype]
  cases types.ofValues record values with
  | error error => exact ⟨nofun, fun ⟨_, hdata, _⟩ => nomatch hdata⟩
  | ok data =>
    constructor
    · intro h
      exact ⟨data, rfl, Except.ok.inj h⟩
    · rintro ⟨_, hdata, rfl⟩
      cases hdata
      rfl

/-- All other values are looked at by the type inside the boxes. -/
theorem FieldType.ofValue_eq_ofLeafValue (type : FieldType n) {value : Value}
    (h : (∀ record, type.unboxed ≠ .record record) ∨ ∀ fields, value ≠ .record fields) :
    type.ofValue types value = type.unboxed.ofLeafValue value := by
  cases value with
  | record fields =>
    rcases h with htype | hvalue
    · rw [FieldType.ofValue]
      cases hunboxed : type.unboxed with
      | record record => exact absurd hunboxed (htype record)
      | _ => rfl
    · exact absurd rfl (hvalue fields)
  | _ => rfl

theorem checkFieldCount_eq_ok_iff {name : String} {expected : Nat} {values : List Value} :
    checkFieldCount name expected values = .ok () ↔ values.length = expected := by
  rw [checkFieldCount]
  by_cases hcount : values.length = expected <;> simp [hcount]

theorem TypeTable.ofValues_eq_ok_iff {declaration : Declaration n}
    (hdeclared : types record = .declared declaration) {values : List Value} {data : List Datum} :
    types.ofValues record values = .ok data ↔
      values.length = declaration.members.length ∧
        Member.ofValues types declaration.name declaration.members values = .ok data := by
  rw [ofValues_of_declared hdeclared, Outcome.bind_eq_ok_iff, ← checkFieldCount_eq_ok_iff]
  constructor
  · rintro ⟨_, hcount, hmembers⟩
    exact ⟨hcount, hmembers⟩
  · rintro ⟨hcount, hmembers⟩
    exact ⟨(), hcount, hmembers⟩

theorem Member.ofValues_cons_eq_ok_iff {name : String} {member : Member n}
    {members : List (Member n)} {value : Value} {values : List Value} {data : List Datum} :
    Member.ofValues types name (member :: members) (value :: values) = .ok data ↔
      ∃ datum others, member.type.ofValue types value = .ok datum ∧
        Member.ofValues types name members values = .ok others ∧ datum :: others = data := by
  rw [Member.ofValues, Outcome.bind_eq_ok_iff]
  constructor
  · rintro ⟨datum, hdatum, hnext⟩
    obtain ⟨others, hothers, hdata⟩ := Outcome.bind_eq_ok_iff.1 hnext
    cases hvalue : member.type.ofValue types value with
    | error error =>
      rw [hvalue] at hdatum
      cases hdatum
    | ok fitted =>
      rw [hvalue] at hdatum
      cases hdatum
      exact ⟨datum, others, rfl, hothers, Except.ok.inj hdata⟩
  · rintro ⟨datum, others, hdatum, hothers, rfl⟩
    rw [hdatum]
    exact ⟨datum, rfl, Outcome.bind_eq_ok_iff.2 ⟨others, hothers, rfl⟩⟩

end Fitting

/-! ## Handing out values -/

section Handing

variable {types : TypeTable n} {record : RecordId n}

theorem RecordValues.run_take (types : TypeTable n) (type : FieldType n) (name field : String)
    (value : Value) (values : List Value) :
    (RecordValues.take types type field).run ⟨name, value :: values⟩ =
      ((type.ofValue types value).mapError (.atField name field), ⟨name, values⟩) :=
  rfl

theorem RecordValues.run_take_nil (types : TypeTable n) (type : FieldType n)
    (name field : String) :
    (RecordValues.take types type field).run ⟨name, []⟩ =
      (.error (.valueMismatch "field value" "end of record"), ⟨name, []⟩) :=
  rfl

theorem Member.ofValues_eq_take (name : String) (members : List (Member n)) (values : List Value) :
    Member.ofValues types name members values =
      ((members.mapM fun member => RecordValues.take types member.type member.name).run
        ⟨name, values⟩).1 := by
  induction members generalizing values with
  | nil =>
    rw [Member.ofValues]
    rfl
  | cons member members ih =>
    rw [List.mapM_cons]
    cases values with
    | nil =>
      rw [Member.ofValues, run_bind_of_error (RecordValues.run_take_nil types _ _ _)]
      rfl
    | cons value values =>
      rw [Member.ofValues]
      have htake := RecordValues.run_take types member.type name member.name value values
      cases hvalue : member.type.ofValue types value with
      | error error =>
        rw [hvalue] at htake
        rw [run_bind_of_error htake]
        rfl
      | ok datum =>
        rw [hvalue] at htake
        rw [run_bind_of_ok htake, ih]
        cases hrest : (members.mapM fun member =>
            RecordValues.take types member.type member.name).run ⟨name, values⟩ with
        | mk outcome after =>
          cases outcome with
          | error error =>
            rw [run_bind_of_error hrest]
            rfl
          | ok data =>
            rw [run_bind_of_ok hrest]
            rfl

/-- Data are fitted to a declared record by handing out its values one by one. -/
theorem TypeTable.ofValues_eq_take {declaration : Declaration n}
    (hrecord : types record = .declared declaration) (values : List Value) :
    types.ofValues record values = (do
      let all ← RecordValues.start declaration.name values declaration.members.length
      ((declaration.members.mapM fun member =>
        RecordValues.take types member.type member.name).run all).1) := by
  rw [ofValues_of_declared hrecord, RecordValues.start]
  simp only [bind_assoc, pure_bind, Member.ofValues_eq_take]

end Handing

/-! ## Values of fitted data -/

theorem Datum.toValues_map_plain (values : List Value) :
    Datum.toValues (values.map .plain) = values := by
  induction values with
  | nil => rfl
  | cons value values ih => rw [List.map_cons, Datum.toValues, ih, Datum.toValue]

theorem Datum.toValue_of_ofLeafValue {type : FieldType n} {value : Value} {datum : Datum}
    (h : type.ofLeafValue value = .ok datum) : datum.toValue = value := by
  unfold FieldType.ofLeafValue at h
  split at h
  case h_10 =>
    split at h
    · cases h
      rfl
    · cases h
  all_goals
    cases h
    try rfl

section Lossless

variable {types : TypeTable n}

/-- A value that is kept by whatever fits it. -/
def Value.Kept (types : TypeTable n) (value : Value) : Prop :=
  ∀ (type : FieldType n) (datum : Datum), type.ofValue types value = .ok datum →
    datum.toValue = value

theorem Member.toValues_of_ofValues {name : String} {members : List (Member n)}
    {values : List Value} {data : List Datum} (hkept : ∀ value ∈ values, value.Kept types)
    (hcount : values.length = members.length)
    (hfit : Member.ofValues types name members values = .ok data) :
    Datum.toValues data = values := by
  induction members generalizing values data with
  | nil =>
    rw [Member.ofValues] at hfit
    cases hfit
    exact (List.length_eq_zero_iff.1 hcount).symm
  | cons member members ih =>
    cases values with
    | nil => cases hcount
    | cons value values =>
      obtain ⟨hvalue, hothers⟩ := List.forall_mem_cons.1 hkept
      obtain ⟨datum, others, hdatum, hfit', rfl⟩ := Member.ofValues_cons_eq_ok_iff.1 hfit
      rw [Datum.toValues, hvalue member.type datum hdatum, ih hothers (Nat.succ.inj hcount) hfit']

theorem TypeTable.toValues_of_kept {record : RecordId n} {values : List Value}
    {data : List Datum} (hkept : ∀ value ∈ values, value.Kept types)
    (hfit : types.ofValues record values = .ok data) : Datum.toValues data = values := by
  cases hrecord : types record with
  | plain definition =>
    rw [ofValues, hrecord] at hfit
    cases hfit
    exact Datum.toValues_map_plain values
  | declared declaration =>
    obtain ⟨hcount, hmembers⟩ := (ofValues_eq_ok_iff hrecord).1 hfit
    exact Member.toValues_of_ofValues hkept hcount hmembers

theorem Value.kept (types : TypeTable n) (value : Value) : value.Kept types := by
  induction value using Value.induction with
  | hother value hother =>
    intro type datum h
    rw [type.ofValue_eq_ofLeafValue (.inr hother)] at h
    exact Datum.toValue_of_ofLeafValue h
  | hrecord fields ih =>
    intro type datum h
    by_cases hrecord : ∃ record, type.unboxed = .record record
    · obtain ⟨record, htype⟩ := hrecord
      obtain ⟨data, hdata, rfl⟩ := (FieldType.ofValue_record_eq_ok_iff htype).1 h
      rw [Datum.toValue, TypeTable.toValues_of_kept ih hdata]
    · rw [type.ofValue_eq_ofLeafValue (.inl (not_exists.1 hrecord))] at h
      exact Datum.toValue_of_ofLeafValue h

/-- The values of fitted data are those that the data were fitted to. -/
theorem TypeTable.toValues_of_ofValues {record : RecordId n} {values : List Value}
    {data : List Datum} (hfit : types.ofValues record values = .ok data) :
    Datum.toValues data = values :=
  toValues_of_kept (fun value _ => value.kept types) hfit

end Lossless

/-! ## Records that reach a cycle -/

section Endless

variable {types : TypeTable n}

theorem TypeTable.DeclaredThroughout.of_nests {record target : RecordId n}
    (h : types.DeclaredThroughout record) (hnests : types.catalog.Nests record target) :
    types.DeclaredThroughout target :=
  fun inner hreaches => h inner (hreaches.head hnests)

/-- No declared type that leads to a cycle fits the value. -/
def Value.FitsNoCycle (types : TypeTable n) (value : Value) : Prop :=
  ∀ (type : FieldType n) (target : RecordId n), type.unboxed = .record target →
    types.DeclaredThroughout target → types.catalog.ReachesCycle target →
      ∀ datum, type.ofValue types value ≠ .ok datum

theorem Member.exists_fit_of_mem {name : String} {members : List (Member n)}
    {values : List Value} {data : List Datum} (hcount : values.length = members.length)
    (hfit : Member.ofValues types name members values = .ok data) {member : Member n}
    (hmember : member ∈ members) :
    ∃ value ∈ values, ∃ datum, member.type.ofValue types value = .ok datum := by
  induction members generalizing values data with
  | nil => cases hmember
  | cons first members ih =>
    cases values with
    | nil => cases hcount
    | cons value values =>
      obtain ⟨datum, others, hdatum, hothers, -⟩ := Member.ofValues_cons_eq_ok_iff.1 hfit
      rcases List.mem_cons.1 hmember with rfl | hmember
      · exact ⟨value, List.mem_cons_self, datum, hdatum⟩
      · obtain ⟨other, hother, hdatum'⟩ := ih (Nat.succ.inj hcount) hothers hmember
        exact ⟨other, List.mem_cons_of_mem _ hother, hdatum'⟩

/-- The way to the cycle leads through a member, and a value of that member goes on along it. -/
theorem TypeTable.ofValues_ne_ok_of_fields {record : RecordId n} {values : List Value}
    (hfields : ∀ value ∈ values, value.FitsNoCycle types)
    (hdeclared : types.DeclaredThroughout record) (hcycle : types.catalog.ReachesCycle record)
    (data : List Datum) :
    types.ofValues record values ≠ .ok data := by
  intro hfit
  obtain ⟨declaration, hrecord⟩ := hdeclared record .refl
  obtain ⟨hcount, hmembers⟩ := (ofValues_eq_ok_iff hrecord).1 hfit
  obtain ⟨inner, hnests, hinner⟩ := Catalog.reachesCycle_iff.1 hcycle
  obtain ⟨member, hmember, htype⟩ := exists_member_of_nests hrecord hnests
  obtain ⟨value, hvalue, datum, hdatum⟩ := Member.exists_fit_of_mem hcount hmembers hmember
  exact hfields value hvalue member.type inner htype (hdeclared.of_nests hnests) hinner datum hdatum

theorem Value.fitsNoCycle (types : TypeTable n) (value : Value) : value.FitsNoCycle types := by
  induction value using Value.induction with
  | hother value hother =>
    intro type target htype _ _ datum h
    rw [type.ofValue_eq_ofLeafValue (.inr hother), htype] at h
    cases value <;> cases h
  | hrecord fields ih =>
    intro type target htype hdeclared hcycle datum h
    obtain ⟨data, hdata, -⟩ := (FieldType.ofValue_record_eq_ok_iff htype).1 h
    exact TypeTable.ofValues_ne_ok_of_fields ih hdeclared hcycle data hdata

/-- A declared record that reaches a cycle fits no values. -/
theorem TypeTable.ofValues_ne_ok_of_reachesCycle {record : RecordId n}
    (hdeclared : types.DeclaredThroughout record) (hcycle : types.catalog.ReachesCycle record)
    (values : List Value) (data : List Datum) : types.ofValues record values ≠ .ok data :=
  ofValues_ne_ok_of_fields (fun value _ => value.fitsNoCycle types) hdeclared hcycle data

end Endless

end RecordCodec
