import RecordCodec.Layout.Registry
import RecordCodec.Proofs.Outcome
import RecordCodec.Proofs.Record.Nesting

/-!
# Analysis without a search

Analysis carries a search for cycles from field to field.  Here it is said without one: whether a
record reaches a cycle is found out anew each time, and the schemas of nested records come from
anywhere.  That makes one analysis of many kinds of computations, of which two can be compared as
soon as their lookups can.
-/

namespace RecordCodec

variable {n : Nat}

/-! ## Fields that nest records -/

/-- A field travels as a nested record if and only if it is allowed and nests that record. -/
theorem FieldDef.wire_eq_nested_iff {record : String} {field : FieldDef n} {target : RecordId n} :
    field.wire record = .ok (.nested target) ↔
      (∃ wire, field.wire record = .ok wire) ∧ field.kind = .nested target := by
  constructor
  · intro h
    refine ⟨⟨_, h⟩, ?_⟩
    rw [FieldDef.wire] at h
    split at h
    case h_16 =>
      cases h
      assumption
    all_goals
      try split at h
    all_goals cases h
  · rintro ⟨⟨wire, hwire⟩, hkind⟩
    cases hwidth : field.override.width? with
    | none => rw [FieldDef.wire, hkind, hwidth]
    | some width =>
      rw [FieldDef.wire, hkind, hwidth] at hwire
      cases hwire

theorem Catalog.nests_of_wire {catalog : Catalog n} {record target : RecordId n}
    {field : FieldDef n} {name : String} (hfield : field ∈ (catalog record).fields)
    (hwire : field.wire name = .ok (.nested target)) : catalog.Nests record target :=
  nests_iff.2 ⟨field, hfield, (FieldDef.wire_eq_nested_iff.1 hwire).2⟩

/-! ## The analysis of a record -/

section Definition

variable {m : Type → Type} [Monad m]

/-- The width of a nested record, unless it reaches a cycle inside a record that does. -/
def Catalog.nestedWidth (catalog : Catalog n)
    (schemaOf : RecordId n → ExceptT SchemaError m (Schema n)) (record target : RecordId n) :
    ExceptT SchemaError m (Option Nat) := do
  if catalog.isInfinitelyNested record && catalog.isInfinitelyNested target then
    return none
  else
    let schema ← schemaOf target
    return schema.fixedSize

def Catalog.fieldLayout (catalog : Catalog n)
    (schemaOf : RecordId n → ExceptT SchemaError m (Schema n)) (record : RecordId n)
    (field : FieldDef n) : ExceptT SchemaError m (FieldLayout n) := do
  let wire ← ExceptT.mk (pure (field.wire (catalog record).name))
  let width? ←
    match wire with
    | .leaf kind => pure kind.width?
    | .nested target => catalog.nestedWidth schemaOf record target
  return { name := field.name, kind := field.kind, wire, width? }

/-- The schema of `record`, where `schemaOf` gives the schemas of nested records. -/
def Catalog.analysis (catalog : Catalog n)
    (schemaOf : RecordId n → ExceptT SchemaError m (Schema n)) (record : RecordId n) :
    ExceptT SchemaError m (Schema n) := do
  let fields ← (catalog record).fields.mapM (catalog.fieldLayout schemaOf record)
  let cyclic := catalog.isInfinitelyNested record
  let fixedSize := if cyclic then none else (sumWidths (catalog record).name fields).toOption
  return { record, name := (catalog record).name, fields, fixedSize, cyclic }

variable [LawfulMonad m] {catalog : Catalog n} {record target : RecordId n} {field : FieldDef n}
variable {schemaOf : RecordId n → ExceptT SchemaError m (Schema n)}

theorem Catalog.fieldLayout_of_error {error : SchemaError}
    (hwire : field.wire (catalog record).name = .error error) :
    catalog.fieldLayout schemaOf record field = ExceptT.mk (pure (.error error)) := by
  rw [fieldLayout, hwire]
  apply ExceptT.ext
  simp [ExceptT.run_bind]

theorem Catalog.fieldLayout_of_leaf {kind : Leaf}
    (hwire : field.wire (catalog record).name = .ok (.leaf kind)) :
    catalog.fieldLayout schemaOf record field =
      pure
        { name := field.name, kind := field.kind, wire := .leaf kind, width? := kind.width? } := by
  rw [fieldLayout, hwire]
  apply ExceptT.ext
  simp [ExceptT.run_bind]

theorem Catalog.fieldLayout_of_nested
    (hwire : field.wire (catalog record).name = .ok (.nested target)) :
    catalog.fieldLayout schemaOf record field = do
      let width? ← catalog.nestedWidth schemaOf record target
      return { name := field.name, kind := field.kind, wire := .nested target, width? } := by
  rw [fieldLayout, hwire]
  apply ExceptT.ext
  simp [ExceptT.run_bind]

end Definition

namespace Analysis

variable {catalog : Catalog n} {schemaOf : RecordId n → Lookup n (SchemaResult n)}
variable {record : RecordId n}

variable (schemaOf record) in
/-- The search of earlier fields does not matter for the width of a nested record. -/
theorem nestedWidth_eq {walk : CycleWalk n} (hwalk : walk.Sound catalog) (target : RecordId n) :
    ∃ after : CycleWalk n, after.Sound catalog ∧
      nestedWidth catalog schemaOf (catalog.isInfinitelyNested record) walk target =
        (·, after) <$> catalog.nestedWidth (fun target => ExceptT.mk (schemaOf target)) record
          target := by
  have hcheck := CycleWalk.check_iff hwalk target
  have hsame : (walk.check catalog target).1 = catalog.isInfinitelyNested target :=
    Bool.eq_iff_iff.2 (hcheck.1.trans Catalog.isInfinitelyNested_iff.symm)
  cases hrecord : catalog.isInfinitelyNested record with
  | false =>
    refine ⟨walk, hwalk, ?_⟩
    simp [nestedWidth, Catalog.nestedWidth, hrecord]
  | true =>
    refine ⟨(walk.check catalog target).2, hcheck.2, ?_⟩
    cases htarget : catalog.isInfinitelyNested target <;>
      simp [nestedWidth, Catalog.nestedWidth, hrecord, hsame, htarget]

variable (schemaOf record) in
theorem layoutFields_eq {walk : CycleWalk n} (hwalk : walk.Sound catalog)
    (fields : List (FieldDef n)) :
    layoutFields catalog schemaOf (catalog record).name (catalog.isInfinitelyNested record) walk
        fields =
      fields.mapM (catalog.fieldLayout (fun target => ExceptT.mk (schemaOf target)) record) := by
  induction fields generalizing walk with
  | nil => rfl
  | cons field fields ih =>
    rw [layoutFields, List.mapM_cons, Catalog.fieldLayout, bind_assoc]
    congr 1
    funext wire
    cases wire with
    | leaf kind => simp [ih hwalk]
    | nested target =>
      obtain ⟨after, hafter, hwidth⟩ := nestedWidth_eq schemaOf record hwalk target
      simp [hwidth, ih hafter]

theorem analyzeWith_eq (catalog : Catalog n) (schemaOf : RecordId n → Lookup n (SchemaResult n))
    (record : RecordId n) :
    ExceptT.mk (analyzeWith catalog schemaOf record) =
      catalog.analysis (fun target => ExceptT.mk (schemaOf target)) record := by
  have hcheck := CycleWalk.check_iff (CycleWalk.sound_empty catalog) record
  rw [Catalog.analysis, ← layoutFields_eq schemaOf record hcheck.2]
  rfl

end Analysis

/-! ## Two analyses side by side -/

/-- A relation between computations of two kinds that a plain outcome has to itself and that
composition keeps. -/
structure Corresponds {ε : Type} {m m' : Type → Type} [Monad m] [Monad m']
    (related : ∀ {α : Type}, ExceptT ε m α → ExceptT ε m' α → Prop) : Prop where
  ofExcept : ∀ {α : Type} (outcome : Except ε α),
    related (ExceptT.mk (pure outcome)) (ExceptT.mk (pure outcome))
  bind : ∀ {α β : Type} {first : ExceptT ε m α} {first' : ExceptT ε m' α}
    {next : α → ExceptT ε m β} {next' : α → ExceptT ε m' β}, related first first' →
    (∀ value, related (next value) (next' value)) → related (first >>= next) (first' >>= next')

namespace Corresponds

variable {m m' : Type → Type} [Monad m] [Monad m']

theorem mapM {ε α β : Type} {related : ∀ {α : Type}, ExceptT ε m α → ExceptT ε m' α → Prop}
    [LawfulMonad m] [LawfulMonad m'] (h : Corresponds related) {f : α → ExceptT ε m β}
    {g : α → ExceptT ε m' β} {items : List α}
    (hitems : ∀ item ∈ items, related (f item) (g item)) :
    related (items.mapM f) (items.mapM g) := by
  induction items with
  | nil =>
    rw [List.mapM_nil, List.mapM_nil]
    exact h.ofExcept (.ok [])
  | cons item items ih =>
    rw [List.mapM_cons, List.mapM_cons]
    apply h.bind (hitems item List.mem_cons_self)
    intro value
    apply h.bind (ih fun other hmem => hitems other (List.mem_cons_of_mem _ hmem))
    intro values
    exact h.ofExcept (.ok (value :: values))

variable {related : ∀ {α : Type}, ExceptT SchemaError m α → ExceptT SchemaError m' α → Prop}
variable {catalog : Catalog n} {record : RecordId n}
variable {schemaOf : RecordId n → ExceptT SchemaError m (Schema n)}
variable {schemaOf' : RecordId n → ExceptT SchemaError m' (Schema n)}

theorem nestedWidth (h : Corresponds related) {target : RecordId n}
    (hnests : catalog.Nests record target)
    (hschemaOf : ¬ catalog.ReachesCycle target → related (schemaOf target) (schemaOf' target)) :
    related (catalog.nestedWidth schemaOf record target)
      (catalog.nestedWidth schemaOf' record target) := by
  rw [Catalog.nestedWidth, Catalog.nestedWidth]
  by_cases hskip : (catalog.isInfinitelyNested record && catalog.isInfinitelyNested target) = true
  · rw [if_pos hskip, if_pos hskip]
    exact h.ofExcept (.ok none)
  · rw [if_neg hskip, if_neg hskip]
    refine h.bind (hschemaOf fun htarget => hskip ?_) fun schema => h.ofExcept (.ok _)
    have hrecord : catalog.ReachesCycle record := htarget.of_nests hnests
    rw [Catalog.isInfinitelyNested_iff.2 hrecord, Catalog.isInfinitelyNested_iff.2 htarget,
      Bool.and_self]

/-- Analyses correspond if the schemas of the nested records do that reach no cycle.  Those of other
records are not asked for. -/
theorem analysis [LawfulMonad m] [LawfulMonad m'] (h : Corresponds related)
    (hschemaOf : ∀ target, catalog.Nests record target → ¬ catalog.ReachesCycle target →
      related (schemaOf target) (schemaOf' target)) :
    related (catalog.analysis schemaOf record) (catalog.analysis schemaOf' record) := by
  apply h.bind
  · apply h.mapM
    intro field hfield
    cases hwire : field.wire (catalog record).name with
    | error error =>
      rw [Catalog.fieldLayout_of_error hwire, Catalog.fieldLayout_of_error hwire]
      exact h.ofExcept (.error error)
    | ok wire =>
      cases wire with
      | leaf kind =>
        rw [Catalog.fieldLayout_of_leaf hwire, Catalog.fieldLayout_of_leaf hwire]
        exact h.ofExcept (.ok _)
      | nested target =>
        rw [Catalog.fieldLayout_of_nested hwire, Catalog.fieldLayout_of_nested hwire]
        have hnests := Catalog.nests_of_wire hfield hwire
        exact h.bind (h.nestedWidth hnests (hschemaOf target hnests)) fun width? =>
          h.ofExcept (.ok _)
  · intro fields
    exact h.ofExcept (.ok _)

end Corresponds

/-! ## What a successful analysis says -/

section Success

variable {catalog : Catalog n} {record target : RecordId n} {field : FieldDef n}
variable {known : RecordId n → ExceptT SchemaError Option (Schema n)}

/-- `layout` is the layout of a field of `record`, where `known` tells the schemas of nested
records. -/
structure Catalog.LaysOut (catalog : Catalog n)
    (known : RecordId n → ExceptT SchemaError Option (Schema n)) (record : RecordId n)
    (field : FieldDef n) (layout : FieldLayout n) : Prop where
  name_eq : layout.name = field.name
  kind_eq : layout.kind = field.kind
  wire_eq : field.wire (catalog record).name = .ok layout.wire
  width_of_leaf : ∀ kind, layout.wire = .leaf kind → layout.width? = kind.width?
  width_of_nested : ∀ target, layout.wire = .nested target →
    (catalog.nestedWidth known record target).run = some (.ok layout.width?)

theorem Catalog.laysOut_of_run_fieldLayout {layout : FieldLayout n}
    (h : (catalog.fieldLayout known record field).run = some (.ok layout)) :
    catalog.LaysOut known record field layout := by
  cases hwire : field.wire (catalog record).name with
  | error error =>
    rw [fieldLayout_of_error hwire] at h
    cases h
  | ok wire =>
    cases wire with
    | leaf kind =>
      rw [fieldLayout_of_leaf hwire] at h
      cases h
      exact ⟨rfl, rfl, hwire, fun _ heq => by cases heq; rfl, nofun⟩
    | nested target =>
      rw [fieldLayout_of_nested hwire] at h
      obtain ⟨width?, hwidth, hpure⟩ := Outcome.run_bind_eq_ok_iff.1 h
      cases hpure
      exact ⟨rfl, rfl, hwire, nofun, fun _ heq => by cases heq; exact hwidth⟩

/-- The width of a nested record that is not left out comes from its schema. -/
theorem Catalog.exists_known_of_not_skipped {width? : Option Nat}
    (hasked : (catalog.isInfinitelyNested record && catalog.isInfinitelyNested target) = false)
    (h : (catalog.nestedWidth known record target).run = some (.ok width?)) :
    ∃ schema, (known target).run = some (.ok schema) ∧ schema.fixedSize = width? := by
  rw [nestedWidth, hasked, if_neg Bool.false_ne_true] at h
  obtain ⟨schema, hschema, hpure⟩ := Outcome.run_bind_eq_ok_iff.1 h
  cases hpure
  exact ⟨schema, hschema, rfl⟩

/-- A record that reaches no cycle takes the width of a nested record from its schema. -/
theorem Catalog.exists_known_of_run_nestedWidth {width? : Option Nat}
    (hacyclic : catalog.isInfinitelyNested record = false)
    (h : (catalog.nestedWidth known record target).run = some (.ok width?)) :
    ∃ schema, (known target).run = some (.ok schema) ∧ schema.fixedSize = width? :=
  exists_known_of_not_skipped (by rw [hacyclic, Bool.false_and]) h

/-- `schema` is the schema of `record`, where `known` tells the schemas of nested records. -/
structure Catalog.Finds (catalog : Catalog n)
    (known : RecordId n → ExceptT SchemaError Option (Schema n)) (record : RecordId n)
    (schema : Schema n) : Prop where
  record_eq : schema.record = record
  name_eq : schema.name = (catalog record).name
  cyclic_eq : schema.cyclic = catalog.isInfinitelyNested record
  fixedSize_eq : schema.fixedSize =
    if schema.cyclic then none else (sumWidths schema.name schema.fields).toOption
  fields : List.Forall₂ (catalog.LaysOut known record) (catalog record).fields schema.fields

/-- A fixed size is the sum of the widths, of a record that reaches no cycle. -/
theorem Catalog.Finds.sum_of_fixedSize {schema : Schema n} {size : Nat}
    (h : catalog.Finds known record schema) (hsize : schema.fixedSize = some size) :
    schema.cyclic = false ∧ sumWidths schema.name schema.fields = .ok size := by
  rw [h.fixedSize_eq] at hsize
  cases hcyclic : schema.cyclic with
  | true =>
    rw [hcyclic, if_pos rfl] at hsize
    cases hsize
  | false =>
    rw [hcyclic, if_neg Bool.false_ne_true] at hsize
    cases hsum : sumWidths schema.name schema.fields with
    | error error =>
      rw [hsum] at hsize
      cases hsize
    | ok sum =>
      rw [hsum] at hsize
      cases hsize
      exact ⟨rfl, rfl⟩

/-- Every nested record has a field of the schema. -/
theorem Catalog.Finds.exists_layout_of_nests {schema : Schema n} {inner : RecordId n}
    (h : catalog.Finds known record schema) (hnests : catalog.Nests record inner) :
    ∃ layout ∈ schema.fields, layout.wire = .nested inner := by
  obtain ⟨field, hfield, hkind⟩ := nests_iff.1 hnests
  obtain ⟨layout, hlayout, hlays⟩ := exists_right_of_forall₂ h.fields hfield
  have hnested := FieldDef.wire_eq_nested_iff.2 ⟨⟨_, hlays.wire_eq⟩, hkind⟩
  exact ⟨layout, hlayout, Except.ok.inj (hlays.wire_eq.symm.trans hnested)⟩

/-- Every field of the schema that nests a record comes from the definition. -/
theorem Catalog.Finds.nests_of_layout {schema : Schema n} {inner : RecordId n}
    (h : catalog.Finds known record schema) {layout : FieldLayout n}
    (hlayout : layout ∈ schema.fields) (hwire : layout.wire = .nested inner) :
    catalog.Nests record inner := by
  obtain ⟨field, hfield, hlays⟩ := exists_left_of_forall₂ h.fields hlayout
  exact nests_of_wire hfield (hwire ▸ hlays.wire_eq)

/-- A schema that reaches no cycle was made from the schemas of all records nested in it. -/
theorem Catalog.Finds.exists_known {schema : Schema n} (h : catalog.Finds known record schema)
    (hacyclic : schema.cyclic = false) {layout : FieldLayout n} (hlayout : layout ∈ schema.fields)
    (hwire : layout.wire = .nested target) : ∃ inner, (known target).run = some (.ok inner) := by
  obtain ⟨field, -, hlays⟩ := exists_left_of_forall₂ h.fields hlayout
  obtain ⟨inner, hinner, -⟩ := exists_known_of_run_nestedWidth (h.cyclic_eq ▸ hacyclic)
    (hlays.width_of_nested target hwire)
  exact ⟨inner, hinner⟩

/-- The schema of any record was made from the schemas of the nested records that reach no cycle. -/
theorem Catalog.Finds.exists_known_of_nests {schema : Schema n}
    (h : catalog.Finds known record schema) (hnests : catalog.Nests record target)
    (hacyclic : ¬ catalog.ReachesCycle target) :
    ∃ inner, (known target).run = some (.ok inner) := by
  obtain ⟨layout, hlayout, hwire⟩ := h.exists_layout_of_nests hnests
  obtain ⟨field, -, hlays⟩ := exists_left_of_forall₂ h.fields hlayout
  have hasked :
      (catalog.isInfinitelyNested record && catalog.isInfinitelyNested target) = false := by
    rw [isInfinitelyNested_eq_false_iff.2 hacyclic, Bool.and_false]
  obtain ⟨inner, hinner, -⟩ :=
    exists_known_of_not_skipped hasked (hlays.width_of_nested target hwire)
  exact ⟨inner, hinner⟩

theorem Catalog.finds_of_run_analysis {schema : Schema n}
    (h : (catalog.analysis known record).run = some (.ok schema)) :
    catalog.Finds known record schema := by
  obtain ⟨fields, hfields, hpure⟩ := Outcome.run_bind_eq_ok_iff.1 h
  cases hpure
  exact ⟨rfl, rfl, rfl, rfl,
    (Outcome.run_mapM_eq_ok_iff.1 hfields).imp fun _ _ => laysOut_of_run_fieldLayout⟩

end Success

end RecordCodec
