import RecordCodec.Proofs.Plan.Decoding
import RecordCodec.Proofs.Record.Interpreter
import RecordCodec.Proofs.Wire.Writing

/-!
# Programs as flattened records

A compiled program is the graph of the records that can be reached from its root, laid out in an
array: every record has one place there, its plan follows its fields one by one, and a nested record
is named by its place.  So to read, check and write by the program is to do it by the definitions.
-/

namespace RecordCodec

variable {n : Nat}

namespace Catalog

variable {size : Nat}

/-- The step reads and writes a field of `record`, where `recordAt` tells whose plan each place
holds. -/
inductive StepsAs (catalog : Catalog n) (recordAt : Fin size → RecordId n) (record : RecordId n)
    (field : FieldDef n) : Step Nat → Prop
  | leaf (kind : Leaf) (hwire : field.wire (catalog record).name = .ok (.leaf kind)) :
      StepsAs catalog recordAt record field { field := field.name, wire := .leaf kind }
  | nested (place : Fin size)
      (hwire : field.wire (catalog record).name = .ok (.nested (recordAt place))) :
      StepsAs catalog recordAt record field { field := field.name, wire := .nested place }

/-- The plan says of `record` what its definition says, field by field. -/
structure PlannedAs (catalog : Catalog n) (recordAt : Fin size → RecordId n) (record : RecordId n)
    (plan : Plan Nat) : Prop where
  name_eq : plan.name = (catalog record).name
  fixedSize_eq : plan.fixedSize = catalog.fixedSize record
  cyclic_eq : plan.cyclic = catalog.isInfinitelyNested record
  steps : List.Forall₂ (catalog.StepsAs recordAt record) (catalog record).fields plan.steps

/-- The program has one plan for each record that can be reached from `record`, the first one for
`record` itself; `recordAt` tells whose plan each place holds. -/
structure FlattensInto (catalog : Catalog n) (record : RecordId n) (program : Program)
    (recordAt : Fin program.plans.size → RecordId n) : Prop where
  first : ∃ h : 0 < program.plans.size, recordAt ⟨0, h⟩ = record
  injective : Function.Injective recordAt
  range_eq : Set.range recordAt = {inner | catalog.Reaches record inner}
  planned : ∀ place, catalog.PlannedAs recordAt (recordAt place) (program.plan place)

/-! ## Reading, checking and writing -/

/-- Reading, checking and writing by the program is the same computation as by the definitions: it
has the same outcome, and leaves the source or the sink alike. -/
structure InterpretedBy (catalog : Catalog n) (record : RecordId n) (program : Program)
    (limits : Limits) : Prop where
  read : ∀ {σ : Type} [Source σ] (budget : Nat),
    (decodeRecord program.plan limits budget 0 0 : Decoding σ (List Value)) =
      catalog.readRecord limits budget record 0
  readUnchecked : ∀ {σ : Type} [Source σ] (source : σ),
    (program.decodeUnchecked limits).run source =
      (catalog.readRecord limits (program.budget limits (Source.remaining source)) record 0).run
        source
  readChecked : ∀ {σ : Type} [Source σ] (source : σ),
    (program.decodeChecked limits).run source =
      (catalog.readChecked limits (program.budget limits (Source.remaining source)) record).run
        source
  check : ∀ values, program.encodedLength limits values = catalog.writtenLength limits record values
  write : ∀ {κ : Type} [Sink κ] (values : List Value),
    (program.encode limits values : Encoding κ Nat) = catalog.write limits record values

namespace FlattensInto

variable {catalog : Catalog n} {record : RecordId n} {program : Program} {limits : Limits}
variable {recordAt : Fin program.plans.size → RecordId n}
variable (h : catalog.FlattensInto record program recordAt)
include h

/-- A program has as many plans as records can be reached. -/
theorem size_eq : program.plans.size = catalog.height record := by
  calc
    program.plans.size = (Set.univ : Set (Fin program.plans.size)).ncard := by
      rw [Set.ncard_univ, Nat.card_eq_fintype_card, Fintype.card_fin]
    _ = (Set.range recordAt).ncard := by
      rw [← Set.image_univ, Set.ncard_image_of_injective _ h.injective]
    _ = catalog.height record := by rw [h.range_eq, height]

theorem fixedSize_eq : program.root.fixedSize = catalog.fixedSize record := by
  obtain ⟨hroot, rfl⟩ := h.first
  exact (h.planned ⟨0, hroot⟩).fixedSize_eq

theorem checkCount_eq (place : Fin program.plans.size) (values : List Value) :
    (program.plan place).checkCount values = catalog.checkCount (recordAt place) values := by
  have hplan := h.planned place
  rw [Plan.checkCount, Catalog.checkCount, hplan.name_eq, hplan.steps.length_eq]

section Reading

variable {σ : Type} [Source σ]

theorem decodeRecord_eq (budget : Nat) (place : Fin program.plans.size) (depth : Nat) :
    (decodeRecord program.plan limits budget place depth : Decoding σ (List Value)) =
      catalog.readRecord limits budget (recordAt place) depth := by
  induction budget generalizing place depth with
  | zero => rfl
  | succ budget ih =>
    have hplan := h.planned place
    apply (mapM_congr_forall₂ (hplan.steps.imp fun field step hstep => ?_)).symm
    cases hstep with
    | leaf kind hwire =>
      rw [readField_of_leaf hwire, decodeStep_of_leaf rfl, hplan.name_eq]
    | nested target hwire =>
      rw [readField_of_nested hwire, decodeStep_of_nested rfl, (h.planned target).cyclic_eq]
      simp only [ih target]

theorem decodeRoot_eq (budget : Nat) :
    (decodeRecord program.plan limits budget 0 0 : Decoding σ (List Value)) =
      catalog.readRecord limits budget record 0 := by
  obtain ⟨hroot, rfl⟩ := h.first
  exact h.decodeRecord_eq budget ⟨0, hroot⟩ 0

theorem run_decodeChecked_eq (source : σ) :
    (program.decodeChecked limits).run source =
      (catalog.readChecked limits (program.budget limits (Source.remaining source)) record).run
        source := by
  have hread : (program.decodeUnchecked limits).run source =
      (catalog.readRecord limits (program.budget limits (Source.remaining source)) record 0).run
        source := by
    rw [Program.run_decodeUnchecked, h.decodeRoot_eq]
  obtain ⟨hroot, rfl⟩ := h.first
  have hplan := h.planned ⟨0, hroot⟩
  have hsize : program.root.fixedSize = catalog.fixedSize (recordAt ⟨0, hroot⟩) :=
    hplan.fixedSize_eq
  rw [readChecked, ← hsize, ← hplan.name_eq]
  cases hneeded : program.root.fixedSize with
  | none => rw [Program.run_decodeChecked_of_none hneeded, hread]
  | some needed =>
    rw [Program.run_decodeChecked_of_some hneeded, hread]
    exact (Decoding.run_unless_short needed _ _).symm

end Reading

omit h in
mutual

theorem stepLength_eq (h : catalog.FlattensInto record program recordAt)
    {place : Fin program.plans.size} {field : FieldDef n} {step : Step Nat}
    (hstep : catalog.StepsAs recordAt (recordAt place) field step) (depth : Nat) (value : Value) :
    stepLength program.plan limits (program.plan place).name depth step value =
      catalog.fieldLength limits (recordAt place) depth field value := by
  cases hstep with
  | leaf kind hwire =>
    rw [fieldLength_of_leaf hwire, stepLength_of_leaf rfl, (h.planned place).name_eq]
  | nested target hwire =>
    cases value with
    | record values =>
      rw [fieldLength_of_nested hwire, stepLength_of_nested rfl, (h.planned target).cyclic_eq]
      congr 1
      funext inner
      rw [recordLength, h.checkCount_eq, stepsLength_eq h (h.planned target).steps inner values]
    | _ =>
      simp only [stepLength, fieldLength, resolve_of_ok hwire, (h.planned place).name_eq]
      rfl

theorem stepsLength_eq (h : catalog.FlattensInto record program recordAt)
    {place : Fin program.plans.size} {fields : List (FieldDef n)} {steps : List (Step Nat)}
    (hsteps : List.Forall₂ (catalog.StepsAs recordAt (recordAt place)) fields steps) (depth : Nat)
    (values : List Value) :
    stepsLength program.plan limits (program.plan place).name depth steps values =
      catalog.fieldsLength limits (recordAt place) depth fields values := by
  cases hsteps with
  | nil => simp [stepsLength, fieldsLength]
  | cons hfirst hrest =>
    cases values with
    | nil => simp [stepsLength, fieldsLength]
    | cons value values =>
      rw [stepsLength, fieldsLength, stepLength_eq h hfirst depth value,
        stepsLength_eq h hrest depth values]

end

theorem encodedLength_eq (values : List Value) :
    program.encodedLength limits values = catalog.writtenLength limits record values := by
  obtain ⟨hroot, rfl⟩ := h.first
  have hcount := h.checkCount_eq ⟨0, hroot⟩ values
  have hsteps : stepsLength program.plan limits program.root.name 0 program.root.steps values =
      catalog.fieldsLength limits (recordAt ⟨0, hroot⟩) 0 _ values :=
    h.stepsLength_eq (h.planned ⟨0, hroot⟩).steps 0 values
  rw [Program.encodedLength, recordLength, writtenLength, ← hcount, ← hsteps]
  rfl

section Writing

variable {κ : Type} [Sink κ]

omit h in
mutual

theorem encodeStep_eq (h : catalog.FlattensInto record program recordAt)
    {place : Fin program.plans.size} {field : FieldDef n} {step : Step Nat}
    (hstep : catalog.StepsAs recordAt (recordAt place) field step) (value : Value) :
    (encodeStep program.plan (program.plan place).name step value : Encoding κ Unit) =
      catalog.writeField (recordAt place) field value := by
  cases hstep with
  | leaf kind hwire =>
    rw [writeField_of_leaf hwire, encodeStep_of_leaf rfl, (h.planned place).name_eq]
  | nested target hwire =>
    cases value with
    | record values =>
      rw [writeField_of_nested hwire, encodeStep_of_nested rfl]
      exact encodeSteps_eq h (h.planned target).steps values
    | _ =>
      simp only [encodeStep, writeField, resolve_of_ok hwire, (h.planned place).name_eq]
      rfl

theorem encodeSteps_eq (h : catalog.FlattensInto record program recordAt)
    {place : Fin program.plans.size} {fields : List (FieldDef n)} {steps : List (Step Nat)}
    (hsteps : List.Forall₂ (catalog.StepsAs recordAt (recordAt place)) fields steps)
    (values : List Value) :
    (encodeSteps program.plan (program.plan place).name steps values : Encoding κ Unit) =
      catalog.writeFields (recordAt place) fields values := by
  cases hsteps with
  | nil => simp [encodeSteps, writeFields]
  | cons hfirst hrest =>
    cases values with
    | nil => simp [encodeSteps, writeFields]
    | cons value values =>
      rw [encodeSteps, writeFields, encodeStep_eq h hfirst value, encodeSteps_eq h hrest values]

end

theorem encode_eq (values : List Value) :
    (program.encode limits values : Encoding κ Nat) = catalog.write limits record values := by
  obtain ⟨hroot, rfl⟩ := h.first
  have hsteps : (encodeSteps program.plan program.root.name program.root.steps values :
      Encoding κ Unit) = catalog.writeFields (recordAt ⟨0, hroot⟩) _ values :=
    h.encodeSteps_eq (h.planned ⟨0, hroot⟩).steps values
  rw [Program.encode, write, h.encodedLength_eq, hsteps]

end Writing

theorem interpretedBy (limits : Limits) : catalog.InterpretedBy record program limits where
  read := h.decodeRoot_eq
  readUnchecked source := by rw [Program.run_decodeUnchecked, h.decodeRoot_eq]
  readChecked := h.run_decodeChecked_eq
  check := h.encodedLength_eq
  write := h.encode_eq

end FlattensInto

end Catalog

/-! ## What compiling gives -/

/-- What is reached by way of schemas that are outcomes of analysis is reached by way of the
definitions. -/
theorem PlanQueue.reaches_of_outcome {catalog : Catalog n} {queue : PlanQueue n} {root : Schema n}
    {record : RecordId n}
    (houtcome : ∀ schema ∈ queue.found, catalog.outcome schema.record = .ok schema)
    (hreaches : queue.Reaches root record) : catalog.Reaches root.record record := by
  have hlinks : Links queue.found ≤ catalog.Nests := by
    rintro _ inner ⟨schema, hschema, rfl, layout, hlayout, hwire⟩
    obtain ⟨_, -, hfinds⟩ := Catalog.finds_of_outcome (houtcome schema hschema)
    exact hfinds.nests_of_layout hlayout hwire
  exact Relation.ReflTransGen.mono hlinks _ _ hreaches

/-- The record whose schema was found at each place. -/
def Program.recordAt (program : Program) {found : Array (Schema n)}
    (hsize : program.plans.size = found.size) (place : Fin program.plans.size) : RecordId n :=
  found[place.cast hsize].record

namespace Program.Flattens

variable {catalog : Catalog n} {program : Program} {invariant : Registry n → Prop}
variable {root : Schema n} {found : Array (Schema n)} {registry : Registry n}
variable (h : program.Flattens invariant root found registry)
variable (houtcome : ∀ schema ∈ found, catalog.outcome schema.record = .ok schema)
include h

theorem getElem?_found (place : Fin program.plans.size) :
    found[place.val]? = some found[place.cast h.size_eq] :=
  Array.getElem?_eq_getElem (h.size_eq ▸ place.isLt)

theorem recordAt_of_getElem? {place : Nat} {schema : Schema n}
    (hschema : found[place]? = some schema) :
    ∃ hplace : place < program.plans.size,
      program.recordAt h.size_eq ⟨place, hplace⟩ = schema.record := by
  obtain ⟨hlt, rfl⟩ := Array.getElem?_eq_some_iff.1 hschema
  exact ⟨h.size_eq ▸ hlt, rfl⟩

theorem recordAt_injective : Function.Injective (program.recordAt h.size_eq) := by
  have hget (place : Fin program.plans.size) :
      (found.toList.map (·.record))[place.val]? = some (program.recordAt h.size_eq place) := by
    simp [recordAt, h.getElem?_found]
  intro place other hsame
  have hlength : place.val < (found.toList.map (·.record)).length := by
    simpa using h.size_eq ▸ place.isLt
  apply Fin.ext
  rw [← List.getElem?_inj hlength h.sound.nodup]
  exact (hget place).trans ((congrArg some hsame).trans (hget other).symm)

/-- The step that mirrors the layout of a field of `record` reads and writes that field. -/
theorem stepsAs {known : RecordId n → ExceptT SchemaError Option (Schema n)} {record : RecordId n}
    {field : FieldDef n} {layout : FieldLayout n} {step : Step Nat}
    (hlays : catalog.LaysOut known record field layout) (hmirrors : step.Mirrors found layout) :
    catalog.StepsAs (program.recordAt h.size_eq) record field step := by
  have hname : step.field = field.name := hmirrors.field_eq.trans hlays.name_eq
  cases hwire : step.wire with
  | leaf kind =>
    have hleaf : layout.wire = .leaf kind := (hwire ▸ hmirrors.wire).eq_leaf
    have hstep : step = { field := field.name, wire := .leaf kind } := by rw [← hname, ← hwire]
    rw [hstep]
    exact .leaf kind (hleaf ▸ hlays.wire_eq)
  | nested place =>
    obtain ⟨schema, hschema, hnested⟩ := (hwire ▸ hmirrors.wire).exists_of_nested
    obtain ⟨hplace, hrecord⟩ := h.recordAt_of_getElem? hschema
    have hstep : step = { field := field.name, wire := .nested place } := by rw [← hname, ← hwire]
    rw [hstep]
    exact .nested ⟨place, hplace⟩ (by rw [hrecord, ← hnested, hlays.wire_eq])

include houtcome

/-- What is reached by way of the schemas is reached by way of the definitions. -/
theorem reaches_recordAt (place : Fin program.plans.size) :
    catalog.Reaches root.record (program.recordAt h.size_eq place) := by
  have hschema : found[place.cast h.size_eq] ∈ found := Array.getElem_mem _
  exact PlanQueue.reaches_of_outcome houtcome (h.sound.reached _ hschema)

/-- What is reached by way of the definitions has a place. -/
theorem exists_place {inner : RecordId n} (hreaches : catalog.Reaches root.record inner) :
    ∃ place, program.recordAt h.size_eq place = inner := by
  induction hreaches with
  | refl =>
    obtain ⟨hplace, hrecord⟩ := h.recordAt_of_getElem? h.sound.first
    exact ⟨_, hrecord⟩
  | tail _ hnests ih =>
    obtain ⟨place, rfl⟩ := ih
    have hschema := h.getElem?_found place
    obtain ⟨_, -, hfinds⟩ :=
      Catalog.finds_of_outcome (houtcome _ (Array.mem_of_getElem? hschema))
    obtain ⟨layout, hlayout, hwire⟩ := hfinds.exists_layout_of_nests hnests
    obtain ⟨_, _, _, other, hother, rfl, -⟩ :=
      (h.mirrors hschema).exists_step_of_nested hlayout hwire
    obtain ⟨hplace, hrecord⟩ := h.recordAt_of_getElem? hother
    exact ⟨_, hrecord⟩

theorem plannedAs (place : Fin program.plans.size) :
    catalog.PlannedAs (program.recordAt h.size_eq) (program.recordAt h.size_eq place)
      (program.plan place) := by
  have hschema := h.getElem?_found place
  have hmirrors := h.mirrors hschema
  have hfound := houtcome _ (Array.mem_of_getElem? hschema)
  obtain ⟨_, -, hfinds⟩ := Catalog.finds_of_outcome hfound
  constructor
  · exact hmirrors.name_eq.trans hfinds.name_eq
  · rw [hmirrors.fixedSize_eq, Catalog.fixedSize, recordAt, hfound]
    rfl
  · exact hmirrors.cyclic_eq.trans hfinds.cyclic_eq
  · exact forall₂_comp hfinds.fields hmirrors.steps fun _ _ _ => h.stepsAs

/-- Schemas that are outcomes of analysis flatten the records that the root reaches. -/
theorem flattensInto :
    catalog.FlattensInto root.record program (program.recordAt h.size_eq) where
  first := h.recordAt_of_getElem? h.sound.first
  injective := h.recordAt_injective
  range_eq := by
    ext inner
    constructor
    · rintro ⟨place, rfl⟩
      exact h.reaches_recordAt houtcome place
    · exact h.exists_place houtcome
  planned := h.plannedAs houtcome

end Program.Flattens

namespace CoreCodec

variable {catalog : Catalog n} {record : RecordId n} {registry registry' : Registry n}
variable {root : Schema n} {limits : Limits} {core : CoreCodec n}

/-- Where generation succeeds, the plans are those of a queue that was worked off. -/
theorem exists_run_drain (hrun : ((generate catalog root limits).run registry).1 = .ok core) :
    ∃ queue, ((PlanQueue.drain catalog n (.start root)).run registry).1 = .ok queue ∧
      core.program.plans = queue.plans := by
  obtain ⟨program, hcompile, hcore⟩ := exists_run_of_bind_ok hrun
  obtain ⟨queue, hqueue, hprogram⟩ := exists_run_of_bind_ok hcompile
  obtain ⟨_, -, hverified⟩ := exists_run_of_bind_ok hprogram
  cases hcore
  cases hverified
  exact ⟨queue, hqueue, rfl⟩

/-- A generated program is the graph of the records that its root reaches.  Working off the queue
ends, with every schema planned; there is exactly one plan for each record that can be reached, that
of the root in front, and each plan follows the fields in order and names a nested record by its
place.  So within any limits the program reads, checks and writes as the definitions say. -/
theorem flattens_of_generate (hregistry : registry.AskedUnder catalog)
    (hregistry' : registry'.AskedUnder catalog)
    (hroot : ((Registry.schema catalog record).run registry).1 = .ok root ∨
      ((Registry.analyze catalog record).run registry).1 = .ok root)
    (hrun : ((generate catalog root limits).run registry').1 = .ok core) :
    (∃ queue : PlanQueue n, queue.plans = core.program.plans ∧
      queue.plans.size = queue.found.size ∧ ∀ rounds, n ≤ rounds →
        ((PlanQueue.drain catalog rounds (.start root)).run registry').1 = .ok queue) ∧
    ∃ recordAt, catalog.FlattensInto record core.program recordAt ∧
      ∀ limits', catalog.InterpretedBy record core.program limits' := by
  constructor
  · obtain ⟨queue, hqueue, hplans⟩ := exists_run_drain hrun
    have hadmits := Registry.admits_faithful catalog
    have hsound : ∀ registry : Registry n, registry.Faithful catalog → registry.Sound :=
      fun _ hfaithful => hfaithful.sound
    have hdone := (PlanQueue.leads_drain_start hadmits hsound root registry'
      hregistry'.faithful).1 queue hqueue
    refine ⟨queue, hplans.symm, hdone.2, fun rounds hrounds => ?_⟩
    rw [PlanQueue.run_drain_of_le hadmits hsound hrounds root hregistry'.faithful, hqueue]
  · have hcore : core.GeneratedUnder catalog record :=
      ⟨root, limits, registry, registry', hregistry, hregistry', hroot, hrun⟩
    obtain ⟨root, found, _, -, hflattens, rfl, houtcome⟩ := hcore.exists_flattens
    have hinto := hflattens.flattensInto houtcome
    exact ⟨_, hinto, hinto.interpretedBy⟩

end CoreCodec

namespace Sample

/-- A pair holds a tag and something that holds the pair and the tag again; nothing holds a note. -/
def meshCatalog : Catalog 4
  | 0 => { name := "Pair", fields := [⟨"left", .nested 1, .none⟩, ⟨"right", .nested 2, .none⟩] }
  | 1 => { name := "Back", fields := [⟨"pair", .nested 0, .none⟩, ⟨"tag", .nested 2, .none⟩] }
  | 2 => { name := "Tag", fields := [⟨"id", .int8, .none⟩] }
  | 3 => { name := "Note", fields := [⟨"text", .text, .none⟩] }

def meshSchema : Schema 4 where
  record := 0
  name := "Pair"
  fields := [⟨"left", .nested 1, .nested 1, none⟩, ⟨"right", .nested 2, .nested 2, some 1⟩]
  fixedSize := none
  cyclic := true

def meshCore : CoreCodec 4 where
  record := 0
  program := {
    plans := #[
      { name := "Pair", fixedSize := none, cyclic := true
        steps := [⟨"left", .nested 1⟩, ⟨"right", .nested 2⟩] },
      { name := "Back", fixedSize := none, cyclic := true
        steps := [⟨"pair", .nested 0⟩, ⟨"tag", .nested 2⟩] },
      { name := "Tag", fixedSize := some 1, cyclic := false, steps := [⟨"id", .leaf .int8⟩] }] }
  limits := .standard

/-- The program of a pair has three plans, one for each of the records inside it, and it reads as
the definitions say. -/
theorem mesh_flattens :
    (∃ recordAt : Fin 3 → RecordId 4, Function.Injective recordAt ∧
      Set.range recordAt = {inner | meshCatalog.Reaches 0 inner}) ∧
      ∀ (limits : Limits) (budget : Nat) (source : Reader),
        (decodeRecord meshCore.program.plan limits budget 0 0).run source =
          (meshCatalog.readRecord limits budget 0 0).run source := by
  have hroot : ((Registry.schema meshCatalog 0).run .empty).1 = .ok meshSchema := rfl
  have hrun : ((CoreCodec.generate meshCatalog meshSchema .standard).run .empty).1 =
      .ok meshCore := by with_unfolding_all rfl
  obtain ⟨-, recordAt, hflattens, hinterpreted⟩ :=
    CoreCodec.flattens_of_generate ⟨[], rfl⟩ ⟨[], rfl⟩ (.inl hroot) hrun
  exact ⟨⟨recordAt, hflattens.injective, hflattens.range_eq⟩, fun limits budget source => by
    rw [(hinterpreted limits).read]⟩

end Sample

end RecordCodec
