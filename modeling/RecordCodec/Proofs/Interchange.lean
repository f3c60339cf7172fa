import RecordCodec.Proofs.Codec.Acceptance
import RecordCodec.Proofs.Plan.Naming
import RecordCodec.Proofs.Plan.OpenRecords
import RecordCodec.Proofs.Record.Twins

/-!
# Codecs that stand in for each other

If the same bytes are hashed for two records that reach no cycle, then the core codec of the one can
stand in for that of the other, within the same limits.  The plans of the two may differ, since one
program shares a plan where the other has two.  So the codecs are compared by the definitions, which
they do the same as: twins are read, checked and written field by field the same way, but for the
names in an error.
-/

namespace RecordCodec

variable {n n' : Nat}

namespace Catalog

/-! ## Twins side by side -/

section SideBySide

variable {catalog : Catalog n} {catalog' : Catalog n'} {record : RecordId n} {record' : RecordId n'}
variable {limits : Limits}

theorem Twins.cyclic_eq (h : catalog.Twins catalog' record record') :
    catalog.isInfinitelyNested record = catalog'.isInfinitelyNested record' := by
  rw [isInfinitelyNested_eq_false_iff.2 h.acyclic, isInfinitelyNested_eq_false_iff.2 h.acyclic']

theorem Twins.checkCount_sameButNames (h : catalog.Twins catalog' record record')
    (values : List Value) :
    SameButNames (catalog.checkCount record values) (catalog'.checkCount record' values) := by
  rw [checkCount, checkCount, h.fields.length_eq]
  split
  · exact .refl _
  · exact .error rfl

section Reading

variable {σ : Type} [Source σ]

/-- Twins are read alike, within the same budget. -/
theorem Twins.readRecord_alike (h : catalog.Twins catalog' record record') (budget depth : Nat) :
    Alike (catalog.readRecord limits budget record depth : Decoding σ (List Value))
      (catalog'.readRecord limits budget record' depth) := by
  induction budget generalizing record record' depth with
  | zero => exact .refl _
  | succ budget ih =>
    apply Alike.mapM
    apply h.fields.imp
    intro field field' hfields
    cases hfields with
    | leaf kind hwire hwire' =>
      rw [readField_of_leaf hwire, readField_of_leaf hwire']
      exact Leaf.decode_alike _ _ _ _ (FieldDef.admissible_of_wire hwire)
    | nested target target' hwire hwire' htwins =>
      rw [readField_of_nested hwire, readField_of_nested hwire', htwins.cyclic_eq]
      exact (Alike.refl _).bind fun inner => (ih htwins inner).map _

theorem Twins.readChecked_alike (h : catalog.Twins catalog' record record') (budget : Nat) :
    Alike (catalog.readChecked limits budget record : Decoding σ (List Value))
      (catalog'.readChecked limits budget record') := by
  have hread : Alike (catalog.readRecord limits budget record 0 : Decoding σ (List Value))
      (catalog'.readRecord limits budget record' 0) := h.readRecord_alike budget 0
  rw [readChecked, readChecked, h.fixedSize_eq]
  cases catalog'.fixedSize record' with
  | none => exact hread
  | some needed =>
    apply (Alike.refl _).bind
    intro available
    dsimp only
    split
    · exact .throw rfl
    · exact hread

end Reading

section Checking

mutual

theorem TwinFields.fieldLength_sameButNames {record : RecordId n} {record' : RecordId n'}
    {field : FieldDef n} {field' : FieldDef n'}
    (h : catalog.TwinFields catalog' record record' field field') (depth : Nat) (value : Value) :
    SameButNames (catalog.fieldLength limits record depth field value)
      (catalog'.fieldLength limits record' depth field' value) := by
  cases h with
  | leaf kind hwire hwire' =>
    rw [fieldLength_of_leaf hwire, fieldLength_of_leaf hwire']
    exact Leaf.encodedLength_sameButNames _ _ _ _ kind value
  | nested target target' hwire hwire' htwins =>
    cases value with
    | record values =>
      rw [fieldLength_of_nested hwire, fieldLength_of_nested hwire', htwins.cyclic_eq]
      apply (SameButNames.refl _).bind
      intro inner
      apply (htwins.checkCount_sameButNames values).bind
      intro _
      exact fieldsLength_sameButNames htwins.fields inner values
    | _ =>
      simp only [fieldLength, resolve_of_ok hwire, resolve_of_ok hwire']
      exact .error rfl

theorem fieldsLength_sameButNames {record : RecordId n} {record' : RecordId n'}
    {fields : List (FieldDef n)} {fields' : List (FieldDef n')}
    (h : List.Forall₂ (catalog.TwinFields catalog' record record') fields fields') (depth : Nat)
    (values : List Value) :
    SameButNames (catalog.fieldsLength limits record depth fields values)
      (catalog'.fieldsLength limits record' depth fields' values) := by
  cases h with
  | nil => simp only [fieldsLength, SameButNames]
  | cons hfirst hrest =>
    cases values with
    | nil => simp only [fieldsLength, SameButNames]
    | cons value values =>
      rw [fieldsLength, fieldsLength]
      apply (hfirst.fieldLength_sameButNames depth value).bind
      intro first
      apply (fieldsLength_sameButNames hrest depth values).bind
      intro rest
      exact .refl _

end

theorem Twins.writtenLength_sameButNames (h : catalog.Twins catalog' record record')
    (values : List Value) :
    SameButNames (catalog.writtenLength limits record values)
      (catalog'.writtenLength limits record' values) :=
  (h.checkCount_sameButNames values).bind fun _ => fieldsLength_sameButNames h.fields 0 values

end Checking

section Writing

variable {κ : Type} [Sink κ]

mutual

theorem TwinFields.writeField_alike {record : RecordId n} {record' : RecordId n'}
    {field : FieldDef n} {field' : FieldDef n'}
    (h : catalog.TwinFields catalog' record record' field field') (value : Value) :
    Alike (catalog.writeField record field value : Encoding κ Unit)
      (catalog'.writeField record' field' value) := by
  cases h with
  | leaf kind hwire hwire' =>
    rw [writeField_of_leaf hwire, writeField_of_leaf hwire']
    exact Leaf.encode_alike _ _ _ _ kind value
  | nested target target' hwire hwire' htwins =>
    cases value with
    | record values =>
      rw [writeField_of_nested hwire, writeField_of_nested hwire']
      exact writeFields_alike htwins.fields values
    | _ =>
      simp only [writeField, resolve_of_ok hwire, resolve_of_ok hwire']
      exact .throw rfl

theorem writeFields_alike {record : RecordId n} {record' : RecordId n'}
    {fields : List (FieldDef n)} {fields' : List (FieldDef n')}
    (h : List.Forall₂ (catalog.TwinFields catalog' record record') fields fields')
    (values : List Value) :
    Alike (catalog.writeFields record fields values : Encoding κ Unit)
      (catalog'.writeFields record' fields' values) := by
  cases h with
  | nil => simp only [writeFields, Alike]
  | cons hfirst hrest =>
    cases values with
    | nil => simp only [writeFields, Alike]
    | cons value values =>
      rw [writeFields, writeFields]
      exact (hfirst.writeField_alike value).bind fun _ => writeFields_alike hrest values

end

theorem Twins.write_alike (h : catalog.Twins catalog' record record') (values : List Value) :
    Alike (catalog.write limits record values : Encoding κ Nat)
      (catalog'.write limits record' values) := by
  apply (Alike.ofExcept (h.writtenLength_sameButNames values)).bind
  intro length
  apply (writeFields_alike h.fields values).bind
  intro _
  exact .refl _

end Writing

end SideBySide

/-! ## Budgets -/

section Budgets

variable {catalog : Catalog n} {record : RecordId n} {limits : Limits} {budget budget' : Nat}
variable {σ : Type} [Source σ]

/-- A field of an accepted record that reaches no cycle is a leaf, or it nests such a record, from
which fewer records can be reached. -/
theorem leaf_or_nested_of_acyclic (haccepts : catalog.Accepts record)
    (hacyclic : ¬ catalog.ReachesCycle record) {field : FieldDef n}
    (hfield : field ∈ (catalog record).fields) :
    (∃ kind, field.wire (catalog record).name = .ok (.leaf kind)) ∨
      ∃ target, field.wire (catalog record).name = .ok (.nested target) ∧
        catalog.Accepts target ∧ ¬ catalog.ReachesCycle target ∧
          catalog.height target < catalog.height record := by
  obtain ⟨wire, hwire⟩ := haccepts record .refl field hfield
  cases wire with
  | leaf kind => exact .inl ⟨kind, hwire⟩
  | nested target =>
    have hnests := nests_of_wire hfield hwire
    exact .inr ⟨target, hwire, haccepts.of_reaches (.single hnests),
      mt (ReachesCycle.of_nests hnests) hacyclic, height_lt_of_nests hacyclic hnests⟩

/-- A budget of as many open records as can be reached is enough. -/
theorem readRecord_ends (haccepts : catalog.Accepts record)
    (hacyclic : ¬ catalog.ReachesCycle record) (hbudget : catalog.height record ≤ budget)
    (depth : Nat) :
    (catalog.readRecord limits budget record depth : Decoding σ (List Value)).Ends := by
  induction budget generalizing record depth with
  | zero => exact absurd (catalog.height_pos record) (Nat.not_lt.2 hbudget)
  | succ budget ih =>
    apply Decoding.Ends.mapM
    intro field hfield
    rcases leaf_or_nested_of_acyclic haccepts hacyclic hfield with
      ⟨kind, hwire⟩ | ⟨target, hwire, htarget, hacyclic', hlower⟩
    · rw [readField_of_leaf hwire]
      exact Leaf.decode_ends _ _ kind
    · rw [readField_of_nested hwire]
      exact (Decoding.Ends.ofExcept _).bind fun inner =>
        (ih htarget hacyclic' (by omega) inner).map _

/-- A larger budget changes nothing. -/
theorem readRecord_eq_of_height_le (haccepts : catalog.Accepts record)
    (hacyclic : ¬ catalog.ReachesCycle record) (hbudget : catalog.height record ≤ budget)
    (hbudget' : catalog.height record ≤ budget') (depth : Nat) :
    (catalog.readRecord limits budget record depth : Decoding σ (List Value)) =
      catalog.readRecord limits budget' record depth := by
  induction budget generalizing record budget' depth with
  | zero => exact absurd (catalog.height_pos record) (Nat.not_lt.2 hbudget)
  | succ budget ih =>
    cases budget' with
    | zero => exact absurd (catalog.height_pos record) (Nat.not_lt.2 hbudget')
    | succ budget' =>
      apply mapM_congr_forall₂
      refine List.forall₂_same.2 fun field hfield => ?_
      rcases leaf_or_nested_of_acyclic haccepts hacyclic hfield with
        ⟨kind, hwire⟩ | ⟨target, hwire, htarget, hacyclic', hlower⟩
      · rw [readField_of_leaf hwire, readField_of_leaf hwire]
      · rw [readField_of_nested hwire, readField_of_nested hwire]
        congr 1
        funext inner
        exact congrArg (Value.record <$> ·) (ih htarget hacyclic' (by omega) (by omega) inner)

theorem readChecked_ends (haccepts : catalog.Accepts record)
    (hacyclic : ¬ catalog.ReachesCycle record) (hbudget : catalog.height record ≤ budget) :
    (catalog.readChecked limits budget record : Decoding σ (List Value)).Ends := by
  have hread : (catalog.readRecord limits budget record 0 : Decoding σ (List Value)).Ends :=
    readRecord_ends haccepts hacyclic hbudget 0
  rw [readChecked]
  cases catalog.fixedSize record with
  | none => exact hread
  | some needed =>
    intro source
    rw [Decoding.run_unless_short]
    split
    · exact Option.some_ne_none _
    · exact hread source

end Budgets

namespace FlattensInto

variable {catalog : Catalog n} {record : RecordId n} {program : Program}
variable {recordAt : Fin program.plans.size → RecordId n}
variable (h : catalog.FlattensInto record program recordAt)
include h

theorem height_le_budget (limits : Limits) (remaining : Nat) :
    catalog.height record ≤ program.budget limits remaining := by
  rw [← h.size_eq]
  exact Nat.le_mul_of_pos_right _ (Nat.succ_pos _)

end FlattensInto

end Catalog

/-! ## Core codecs -/

namespace CoreCodec

variable {catalog : Catalog n} {record : RecordId n} {core : CoreCodec n}

/-- The core does what the definitions say, and a budget of as many open records as can be reached
is enough for reading. -/
structure Follows (core : CoreCodec n) (catalog : Catalog n) (record : RecordId n) : Prop where
  fixedSize_eq : core.fixedSize = catalog.fixedSize record
  decodeUnchecked_eq : ∀ {σ : Type} [Source σ] {budget : Nat}, catalog.height record ≤ budget →
    (core.decodeUnchecked : Decoding σ (List Value)) =
      catalog.readRecord core.limits budget record 0
  decodeChecked_eq : ∀ {σ : Type} [Source σ] {budget : Nat}, catalog.height record ≤ budget →
    (core.decodeChecked : Decoding σ (List Value)) = catalog.readChecked core.limits budget record
  encodedLength_eq : ∀ values, core.encodedLength values =
    catalog.writtenLength core.limits record values
  encode_eq : ∀ {κ : Type} [Sink κ] (values : List Value), (core.encode values : Encoding κ Nat) =
    catalog.write core.limits record values

theorem GeneratedUnder.follows (hcore : core.GeneratedUnder catalog record)
    (haccepts : catalog.Accepts record) (hacyclic : ¬ catalog.ReachesCycle record) :
    core.Follows catalog record := by
  obtain ⟨root, found, registry, -, hflattens, rfl, houtcome⟩ := hcore.exists_flattens
  have hinto := hflattens.flattensInto houtcome
  have hinterpreted := hinto.interpretedBy core.limits
  constructor
  · exact hinto.fixedSize_eq
  · intro σ _ budget hbudget
    apply ExceptT.ext
    funext source
    refine (hinterpreted.readUnchecked source).trans ?_
    rw [Catalog.readRecord_eq_of_height_le haccepts hacyclic (hinto.height_le_budget _ _) hbudget]
  · intro σ _ budget hbudget
    apply ExceptT.ext
    funext source
    refine (hinterpreted.readChecked source).trans ?_
    rw [Catalog.readChecked, Catalog.readChecked,
      Catalog.readRecord_eq_of_height_le haccepts hacyclic (hinto.height_le_budget _ _) hbudget]
  · exact hinterpreted.check
  · exact hinterpreted.write

/-- The codecs have the same fixed size; from any source they read the same values and leave the
same behind; they accept the same values, and write the same for them.  Where one of them fails, so
does the other, with the same error but for names. -/
structure Interchangeable (core : CoreCodec n) (core' : CoreCodec n') : Prop where
  fixedSize_eq : core.fixedSize = core'.fixedSize
  decodeUnchecked : ∀ {σ : Type} [Source σ] (source : σ), ∃ outcome outcome' after,
    core.decodeUnchecked.run source = some (outcome, after) ∧
      core'.decodeUnchecked.run source = some (outcome', after) ∧ SameButNames outcome outcome'
  decodeChecked : ∀ {σ : Type} [Source σ] (source : σ), ∃ outcome outcome' after,
    core.decodeChecked.run source = some (outcome, after) ∧
      core'.decodeChecked.run source = some (outcome', after) ∧ SameButNames outcome outcome'
  encodedLength : ∀ values, SameButNames (core.encodedLength values) (core'.encodedLength values)
  encode : ∀ {κ : Type} [Sink κ] (values : List Value) (sink : κ), ∃ outcome outcome' after,
    (core.encode values).run sink = (outcome, after) ∧
      (core'.encode values).run sink = (outcome', after) ∧ SameButNames outcome outcome'

/-- Cores of twins, within the same limits, are interchangeable. -/
theorem Follows.interchangeable {catalog' : Catalog n'} {record' : RecordId n'}
    {core' : CoreCodec n'} (hcore : core.Follows catalog record)
    (hcore' : core'.Follows catalog' record') (htwins : catalog.Twins catalog' record record')
    (hlimits : core.limits = core'.limits) : core.Interchangeable core' := by
  -- One budget that is enough for both.
  have hbudget := Nat.le_max_left (catalog.height record) (catalog'.height record')
  have hbudget' := Nat.le_max_right (catalog.height record) (catalog'.height record')
  constructor
  · rw [hcore.fixedSize_eq, hcore'.fixedSize_eq, htwins.fixedSize_eq]
  · intro σ _ source
    rw [hcore.decodeUnchecked_eq hbudget, hcore'.decodeUnchecked_eq hbudget', hlimits]
    exact (htwins.readRecord_alike _ 0).exists_run
      (Catalog.readRecord_ends htwins.accepts htwins.acyclic hbudget 0) source
  · intro σ _ source
    rw [hcore.decodeChecked_eq hbudget, hcore'.decodeChecked_eq hbudget', hlimits]
    exact (htwins.readChecked_alike _).exists_run
      (Catalog.readChecked_ends htwins.accepts htwins.acyclic hbudget) source
  · intro values
    rw [hcore.encodedLength_eq, hcore'.encodedLength_eq, hlimits]
    exact htwins.writtenLength_sameButNames values
  · intro κ _ values sink
    rw [hcore.encode_eq, hcore'.encode_eq, hlimits]
    exact (htwins.write_alike values).run_encoding sink

/-- If the same bytes are hashed for two records that reach no cycle, whatever their names are and
those of their fields, and whichever records they share inside, then both have core codecs within
any limits, and those within the same limits are interchangeable. -/
theorem interchangeable_of_shapeBytes_eq {catalog' : Catalog n'} {record' : RecordId n'}
    (hrecord : catalog.WellShaped record) (hrecord' : catalog'.WellShaped record')
    (hacyclic : ¬ catalog.ReachesCycle record) (hacyclic' : ¬ catalog'.ReachesCycle record')
    (hbytes : Fingerprint.shapeBytes catalog record = Fingerprint.shapeBytes catalog' record')
    (limits : Limits) :
    (∃ core : CoreCodec n, core.GeneratedUnder catalog record ∧ core.limits = limits) ∧
      (∃ core' : CoreCodec n', core'.GeneratedUnder catalog' record' ∧ core'.limits = limits) ∧
      ∀ (core : CoreCodec n) (core' : CoreCodec n'), core.GeneratedUnder catalog record →
        core'.GeneratedUnder catalog' record' → core.limits = limits → core'.limits = limits →
          core.Interchangeable core' := by
  have htwins := Catalog.Twins.of_shapeBytes_eq hrecord hrecord' hacyclic hacyclic' hbytes
  refine ⟨(exists_generatedUnder_iff limits).2 htwins.accepts,
    (exists_generatedUnder_iff limits).2 htwins.accepts', ?_⟩
  intro core core' hcore hcore' hlimits hlimits'
  have hfollows := hcore.follows htwins.accepts hacyclic
  have hfollows' := hcore'.follows htwins.accepts' hacyclic'
  exact hfollows.interchangeable hfollows' htwins (hlimits.trans hlimits'.symm)

end CoreCodec

namespace Sample

def segmentCatalog : Catalog 2
  | 0 => { name := "Segment", fields := [⟨"start", .nested 1, .none⟩, ⟨"end", .nested 1, .none⟩] }
  | 1 => { name := "Point", fields := [⟨"x", .int16, .none⟩, ⟨"y", .int32, .asU8⟩] }

/-- An edge has a source and a target, which are of two kinds that look alike; a note is none of
them. -/
def edgeCatalog : Catalog 4
  | 0 => { name := "Edge", fields := [⟨"from", .nested 1, .none⟩, ⟨"to", .nested 2, .none⟩] }
  | 1 => { name := "Source", fields := [⟨"id", .int16, .none⟩, ⟨"port", .int32, .asU8⟩] }
  | 2 => { name := "Target", fields := [⟨"key", .int16, .none⟩, ⟨"slot", .int32, .asU8⟩] }
  | 3 => { name := "Note", fields := [⟨"text", .text, .none⟩] }

def segmentSchema : Schema 2 where
  record := 0
  name := "Segment"
  fields := [⟨"start", .nested 1, .nested 1, some 3⟩, ⟨"end", .nested 1, .nested 1, some 3⟩]
  fixedSize := some 6
  cyclic := false

def segmentCore : CoreCodec 2 where
  record := 0
  program := {
    plans := #[
      { name := "Segment", fixedSize := some 6, cyclic := false
        steps := [⟨"start", .nested 1⟩, ⟨"end", .nested 1⟩] },
      pointPlan] }
  limits := .standard

def edgeSchema : Schema 4 where
  record := 0
  name := "Edge"
  fields := [⟨"from", .nested 1, .nested 1, some 3⟩, ⟨"to", .nested 2, .nested 2, some 3⟩]
  fixedSize := some 6
  cyclic := false

def edgeCore : CoreCodec 4 where
  record := 0
  program := {
    plans := #[
      { name := "Edge", fixedSize := some 6, cyclic := false
        steps := [⟨"from", .nested 1⟩, ⟨"to", .nested 2⟩] },
      { name := "Source", fixedSize := some 3, cyclic := false
        steps := [⟨"id", .leaf .int16⟩, ⟨"port", .leaf (.unsigned32 .u8)⟩] },
      { name := "Target", fixedSize := some 3, cyclic := false
        steps := [⟨"key", .leaf .int16⟩, ⟨"slot", .leaf (.unsigned32 .u8)⟩] }] }
  limits := .standard

/-- A segment is read as an edge, although its program has one plan fewer, and what is wrong with
the values of the one is wrong with those of the other. -/
theorem segment_interchangeable :
    segmentCore.GeneratedUnder segmentCatalog 0 ∧ edgeCore.GeneratedUnder edgeCatalog 0 ∧
      Fingerprint.shapeBytes segmentCatalog 0 = Fingerprint.shapeBytes edgeCatalog 0 ∧
      segmentCore.Interchangeable edgeCore := by
  have hsegment : segmentCore.GeneratedUnder segmentCatalog 0 := by
    refine ⟨segmentSchema, .standard, .empty, .empty, ⟨[], rfl⟩, ⟨[], rfl⟩, .inl rfl, ?_⟩
    with_unfolding_all rfl
  have hedge : edgeCore.GeneratedUnder edgeCatalog 0 := by
    refine ⟨edgeSchema, .standard, .empty, .empty, ⟨[], rfl⟩, ⟨[], rfl⟩, .inl rfl, ?_⟩
    with_unfolding_all rfl
  have hbytes : Fingerprint.shapeBytes segmentCatalog 0 = Fingerprint.shapeBytes edgeCatalog 0 := by
    decide +kernel
  obtain ⟨-, -, hinterchangeable⟩ := CoreCodec.interchangeable_of_shapeBytes_eq
    (Catalog.wellShaped_of_forall (by decide) (by decide) 0)
    (Catalog.wellShaped_of_forall (by decide) (by decide) 0)
    (Catalog.isInfinitelyNested_eq_false_iff.1 (by decide))
    (Catalog.isInfinitelyNested_eq_false_iff.1 (by decide)) hbytes .standard
  exact ⟨hsegment, hedge, hbytes, hinterchangeable _ _ hsegment hedge rfl rfl⟩

end Sample

end RecordCodec
