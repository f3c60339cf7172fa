import RecordCodec.Proofs.Codec.Acceptance
import RecordCodec.Proofs.Flattening
import RecordCodec.Proofs.Record.Sizes

/-!
# The reference layout

How many bytes the values of a record take can be read off the definitions: a record that reaches a
cycle has no width, and any other is as wide as its fields together, where text and bytes have no
width.  Analysis finds the same for every field and for the record as a whole, whichever schemas the
registry holds by then, as long as no width is too great to be counted.
-/

namespace RecordCodec

variable {n : Nat}

/-! ## Widths -/

def FieldKind.width? : FieldKind n → Option Nat
  | .int8 | .enum _ => some 1
  | .int16 | .char16 => some 2
  | .int32 | .float32 => some 4
  | .int64 | .float64 => some 8
  | .bool | .text | .bytes | .nested _ => none

/-- The bytes that the field takes by itself: as many as it narrows to, or as its kind takes. -/
def FieldDef.width? (field : FieldDef n) : Option Nat :=
  match field.override.width? with
  | some width => some width.bytes
  | none => field.kind.width?

/-- A field that nests no record is as wide as the leaf that it travels as. -/
theorem FieldDef.width?_of_wire {field : FieldDef n} {record : String} {kind : Leaf}
    (hwire : field.wire record = .ok (.leaf kind)) : kind.width? = field.width? := by
  rw [wire] at hwire
  split at hwire
  all_goals
    try split at hwire
  all_goals
    cases hwire <;> simp_all [width?, FieldKind.width?, Leaf.width?]

namespace Catalog

variable {catalog : Catalog n} {record : RecordId n}

instance (catalog : Catalog n) (record : RecordId n) : Decidable (catalog.ReachesCycle record) :=
  decidable_of_iff _ isInfinitelyNested_iff

/-- The bytes that every value of `record` takes: none if it reaches a cycle, or else the sum over
its fields, where a nested record takes its own width. -/
def width (catalog : Catalog n) (record : RecordId n) : Option Nat :=
  if hcycle : catalog.ReachesCycle record then
    none
  else
    totalWidth <| (catalog record).fields.attach.map fun field =>
      match hnested : field.val.kind.nested? with
      | some target =>
        have : catalog.height target < catalog.height record :=
          height_lt_of_nests hcycle (List.mem_filterMap.2 ⟨field, field.property, hnested⟩)
        catalog.width target
      | none => field.val.width?
termination_by catalog.height record

def widthOf (catalog : Catalog n) (field : FieldDef n) : Option Nat :=
  match field.kind.nested? with
  | some target => catalog.width target
  | none => field.width?

theorem width_of_reachesCycle (hcycle : catalog.ReachesCycle record) :
    catalog.width record = none := by
  rw [width, dif_pos hcycle]

theorem width_of_acyclic (hacyclic : ¬ catalog.ReachesCycle record) :
    catalog.width record = totalWidth ((catalog record).fields.map catalog.widthOf) := by
  rw [width, dif_neg hacyclic]
  congr 1
  refine Eq.trans (List.map_congr_left fun field _ => ?_) List.attach_map_val
  rw [widthOf]
  split <;> simp only [*]

/-! ## What analysis finds -/

theorem widthOf_of_leaf {field : FieldDef n} {name : String} {kind : Leaf}
    (hwire : field.wire name = .ok (.leaf kind)) : kind.width? = catalog.widthOf field := by
  have hnone : field.kind.nested? = none := by
    cases hnested : field.kind.nested? with
    | none => rfl
    | some target =>
      have hkind := FieldKind.nested?_eq_some_iff.1 hnested
      have hother := FieldDef.wire_eq_nested_iff.2 ⟨⟨_, hwire⟩, hkind⟩
      cases hwire.symm.trans hother
  rw [widthOf, hnone]
  exact FieldDef.width?_of_wire hwire

theorem widthOf_of_nested {field : FieldDef n} {name : String} {target : RecordId n}
    (hwire : field.wire name = .ok (.nested target)) :
    catalog.widthOf field = catalog.width target := by
  have hkind := (FieldDef.wire_eq_nested_iff.1 hwire).2
  rw [widthOf, hkind]
  rfl

/-- The width of a nested record is found if its schema has the right fixed size.  If it reaches a
cycle, then so does the record that nests it, and the schema is not even asked for. -/
theorem width_of_run_nestedWidth {known : RecordId n → ExceptT SchemaError Option (Schema n)}
    {target : RecordId n} {width? : Option Nat} (hnests : catalog.Nests record target)
    (hknown : ¬ catalog.ReachesCycle target → ∀ schema, (known target).run = some (.ok schema) →
      schema.fixedSize = (catalog.width target).map wrapCount)
    (hrun : (catalog.nestedWidth known record target).run = some (.ok width?)) :
    width? = (catalog.width target).map wrapCount := by
  rw [nestedWidth] at hrun
  by_cases htarget : catalog.ReachesCycle target
  · have hrecord : catalog.ReachesCycle record := htarget.of_nests hnests
    rw [isInfinitelyNested_iff.2 hrecord, isInfinitelyNested_iff.2 htarget, Bool.and_self,
      if_pos rfl] at hrun
    cases hrun
    rw [width_of_reachesCycle htarget]
    rfl
  · rw [isInfinitelyNested_eq_false_iff.2 htarget, Bool.and_false,
      if_neg Bool.false_ne_true] at hrun
    obtain ⟨schema, hschema, hpure⟩ := Outcome.run_bind_eq_ok_iff.1 hrun
    cases hpure
    exact hknown htarget schema hschema

/-- The schema of the record, if it has one, says the right fixed size, as a count. -/
def Sized (catalog : Catalog n) (record : RecordId n) : Prop :=
  ∀ schema, catalog.outcome record = .ok schema →
    schema.fixedSize = (catalog.width record).map wrapCount

section Analysis

variable {registry : Registry n} {schema : Schema n} (hregistry : registry.Faithful catalog)
variable (hsized : ∀ target, catalog.Nests record target → ¬ catalog.ReachesCycle target →
  catalog.Sized target)
include hregistry hsized

/-- The layout of a field has the width of the field, if the schemas of the nested records that
reach no cycle say theirs. -/
theorem LaysOut.width_eq_widthOf {field : FieldDef n} {layout : FieldLayout n}
    (h : catalog.LaysOut registry.known record field layout)
    (hfield : field ∈ (catalog record).fields) :
    layout.width? = (catalog.widthOf field).map wrapCount := by
  have hwire_eq := h.wire_eq
  cases hwire : layout.wire with
  | leaf kind =>
    rw [hwire] at hwire_eq
    rw [h.width_of_leaf kind hwire, ← widthOf_of_leaf hwire_eq]
    exact (map_wrapCount_of_le fun _ => kind.width_le_maxCount).symm
  | nested target =>
    rw [hwire] at hwire_eq
    rw [widthOf_of_nested hwire_eq]
    have hnests := nests_of_wire hfield hwire_eq
    refine width_of_run_nestedWidth hnests (fun hacyclic schema hschema => ?_)
      (h.width_of_nested target hwire)
    exact hsized target hnests hacyclic schema
      (Registry.Faithful.get?_eq_outcome hregistry hschema).symm

/-- The widths of all fields are found, as counts. -/
theorem Finds.widths_eq (h : catalog.Finds registry.known record schema) :
    List.Forall₂ (fun field (layout : FieldLayout n) =>
      layout.width? = (catalog.widthOf field).map wrapCount)
      (catalog record).fields schema.fields :=
  ((List.forall₂_and_left _ _).2 ⟨fun _ hfield => hfield, h.fields⟩).imp
    fun _ _ ⟨hfield, hlays⟩ => hlays.width_eq_widthOf hregistry hsized hfield

/-- One analysis finds the width of the record, if those of the nested records did. -/
theorem Finds.fixedSize_eq_width (h : catalog.Finds registry.known record schema) :
    schema.fixedSize = (catalog.width record).map wrapCount := by
  have hwidths : schema.fields.map (·.width?) =
      ((catalog record).fields.map catalog.widthOf).map (Option.map wrapCount) := by
    rw [List.map_map]
    exact (map_eq_map_iff.2 ((h.widths_eq hregistry hsized).imp fun _ _ => Eq.symm)).symm
  rw [h.fixedSize_eq, h.cyclic_eq, toOption_sumWidths, hwidths, totalWidth_map_wrapCount]
  cases hcyclic : catalog.isInfinitelyNested record with
  | true =>
    rw [width_of_reachesCycle (isInfinitelyNested_iff.1 hcyclic)]
    rfl
  | false =>
    rw [width_of_acyclic (isInfinitelyNested_eq_false_iff.1 hcyclic)]
    rfl

end Analysis

theorem sized_of_acyclic (hacyclic : ¬ catalog.ReachesCycle record) : catalog.Sized record := by
  refine acyclic_induction (motive := catalog.Sized) (fun inner _ ih schema houtcome => ?_) hacyclic
  obtain ⟨registry, hregistry, hfinds⟩ := finds_of_outcome houtcome
  exact hfinds.fixedSize_eq_width hregistry fun target hnests _ => ih target hnests

/-- The fixed size of a record is its width, as a count. -/
theorem fixedSize_eq_width {schema : Schema n} (houtcome : catalog.outcome record = .ok schema) :
    catalog.fixedSize record = (catalog.width record).map wrapCount := by
  obtain ⟨registry, hregistry, hfinds⟩ := finds_of_outcome houtcome
  rw [fixedSize_of_outcome houtcome]
  exact hfinds.fixedSize_eq_width hregistry fun _ _ => sized_of_acyclic

/-! ## Widths that can be counted -/

/-- The widths of `record`, and of all that it reaches, can be counted. -/
def Countable (catalog : Catalog n) (record : RecordId n) : Prop :=
  ∀ inner, catalog.Reaches record inner → ∀ width, catalog.width inner = some width →
    width ≤ maxCount

theorem Countable.widthOf_le (h : catalog.Countable record) {field : FieldDef n} {width : Nat}
    {wire : Wire (RecordId n)} (hfield : field ∈ (catalog record).fields)
    (hwire : field.wire (catalog record).name = .ok wire)
    (hwidth : catalog.widthOf field = some width) : width ≤ maxCount := by
  cases wire with
  | leaf kind => exact kind.width_le_maxCount ((widthOf_of_leaf hwire).trans hwidth)
  | nested target =>
    exact h target (.single (nests_of_wire hfield hwire)) width
      ((widthOf_of_nested hwire).symm.trans hwidth)

/-- `layout` says of `field` how it travels in `record`, and how wide it is. -/
structure ReferenceField (catalog : Catalog n) (record : RecordId n) (field : FieldDef n)
    (layout : FieldLayout n) : Prop where
  name_eq : layout.name = field.name
  kind_eq : layout.kind = field.kind
  wire_eq : field.wire (catalog record).name = .ok layout.wire
  width_eq : layout.width? = catalog.widthOf field

/-- `schema` has the reference layout of `record`. -/
structure Reference (catalog : Catalog n) (record : RecordId n) (schema : Schema n) : Prop where
  record_eq : schema.record = record
  name_eq : schema.name = (catalog record).name
  fields : List.Forall₂ (catalog.ReferenceField record) (catalog record).fields schema.fields
  fixedSize_eq : schema.fixedSize = catalog.width record
  cyclic_iff : schema.cyclic = true ↔ catalog.ReachesCycle record

/-- The outcome of an analysis has the reference layout, if its widths can be counted. -/
theorem reference_of_outcome {schema : Schema n} (houtcome : catalog.outcome record = .ok schema)
    (hcounts : catalog.Countable record) : catalog.Reference record schema := by
  obtain ⟨registry, hregistry, hfinds⟩ := finds_of_outcome houtcome
  have hsized : ∀ target, catalog.Nests record target → ¬ catalog.ReachesCycle target →
      catalog.Sized target := fun _ _ => sized_of_acyclic
  have hfields : List.Forall₂ (catalog.ReferenceField record) (catalog record).fields
      schema.fields := by
    refine ((List.forall₂_and_left _ _).2 ⟨fun _ hfield => hfield, hfinds.fields⟩).imp ?_
    intro field layout ⟨hfield, hlays⟩
    refine ⟨hlays.name_eq, hlays.kind_eq, hlays.wire_eq, ?_⟩
    exact (hlays.width_eq_widthOf hregistry hsized hfield).trans
      (map_wrapCount_of_le fun _ => hcounts.widthOf_le hfield hlays.wire_eq)
  have hfixedSize : schema.fixedSize = catalog.width record :=
    (hfinds.fixedSize_eq_width hregistry hsized).trans (map_wrapCount_of_le (hcounts record .refl))
  exact ⟨hfinds.record_eq, hfinds.name_eq, hfields, hfixedSize,
    by rw [hfinds.cyclic_eq, isInfinitelyNested_iff]⟩

end Catalog

namespace Registry

variable {catalog : Catalog n} {registry : Registry n} {record : RecordId n} {schema : Schema n}

/-- The registry was empty once and was asked some requests since, directly or by the cache that it
belongs to, all with the definitions of `catalog`. -/
inductive ReachedUnder (catalog : Catalog n) : Registry n → Prop
  | alone {registry : Registry n} :
      registry.AskedUnder catalog → ReachedUnder catalog registry
  | ofCache {cache : Cache n} : cache.AskedUnder catalog → ReachedUnder catalog cache.registry

theorem ReachedUnder.faithful (h : ReachedUnder catalog registry) : registry.Faithful catalog := by
  cases h with
  | alone hasked => exact hasked.faithful
  | ofCache hasked =>
    obtain ⟨limits, hjudged⟩ := hasked.judged
    exact hjudged.registry

/-- A schema that a registry gives has the reference layout, whatever the registry was asked before
under the same definitions: the fields in order, each with its wire kind and its own width, the sum
of the widths as the fixed size if there is no cycle, and word of whether there is one.  All widths
have to be small enough to be counted. -/
theorem ReachedUnder.schema_reference (hregistry : ReachedUnder catalog registry)
    (hrun : ((Registry.schema catalog record).run registry).1 = .ok schema)
    (hcounts : catalog.Countable record) : catalog.Reference record schema := by
  have hgives := (gives_schema catalog record registry hregistry.faithful).1
  exact Catalog.reference_of_outcome (hgives.symm.trans hrun) hcounts

end Registry

namespace Sample

def meshRegistry : Registry 4 :=
  (([.schema 1].mapM (Registry.Query.ask meshCatalog)).run .empty).2

theorem mesh_countable : meshCatalog.Countable 0 := by
  have hcyclic {record : RecordId 4} (h : meshCatalog.isInfinitelyNested record = true) :
      meshCatalog.width record = none :=
    Catalog.width_of_reachesCycle (Catalog.isInfinitelyNested_iff.1 h)
  have hacyclic {record : RecordId 4} (h : meshCatalog.isInfinitelyNested record = false) :
      meshCatalog.width record =
        totalWidth ((meshCatalog record).fields.map meshCatalog.widthOf) :=
    Catalog.width_of_acyclic (Catalog.isInfinitelyNested_eq_false_iff.1 h)
  intro inner _ width hwidth
  match inner with
  | 0 => cases (hcyclic rfl).symm.trans hwidth
  | 1 => cases (hcyclic rfl).symm.trans hwidth
  | 2 =>
    obtain rfl : 1 = width := Option.some.inj ((hacyclic rfl).symm.trans hwidth)
    decide
  | 3 => cases (hacyclic rfl).symm.trans hwidth

/-- A pair reaches a cycle through its first field only, so its second field keeps its width. -/
theorem mesh_reference :
    ((Registry.schema meshCatalog 0).run meshRegistry).1 = .ok meshSchema ∧
      meshCatalog.Countable 0 ∧ meshCatalog.Reference 0 meshSchema ∧
      meshCatalog.width 0 = none := by
  have hrun : ((Registry.schema meshCatalog 0).run meshRegistry).1 = .ok meshSchema := by
    with_unfolding_all rfl
  have hregistry : Registry.ReachedUnder meshCatalog meshRegistry := .alone ⟨[.schema 1], rfl⟩
  have hreference := hregistry.schema_reference hrun mesh_countable
  exact ⟨hrun, mesh_countable, hreference, hreference.fixedSize_eq.symm⟩

end Sample

end RecordCodec
