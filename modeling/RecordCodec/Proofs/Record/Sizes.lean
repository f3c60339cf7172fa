import RecordCodec.Proofs.Codec.Rejection
import RecordCodec.Proofs.Record.Interpreter

/-!
# Sizes of records

Analysis adds up the widths of the fields and takes those of nested records from their schemas.  For
a record that reaches no cycle this says how its fixed size comes from those of the records nested
in it, with no schema in between.
-/

namespace RecordCodec

variable {n : Nat}

theorem toOption_sumWidths (record : String) (layouts : List (FieldLayout n)) :
    (sumWidths record layouts).toOption =
      (totalWidth (layouts.map (·.width?))).map wrapCount := by
  have hzero (total? : Option Nat) : total?.map wrapCount = total?.map (wrapCount <| 0 + ·) := by
    simp only [Nat.zero_add]
  rw [sumWidths, hzero, ← foldlM_wrapCount_add _ (Nat.zero_le maxCount)]
  generalize 0 = before
  induction layouts generalizing before with
  | nil => rfl
  | cons layout layouts ih =>
    rw [List.map_cons, List.foldlM_cons, List.foldlM_cons]
    cases layout.width? with
    | none => rfl
    | some width => exact ih (wrapCount (before + width))

namespace Catalog

variable {catalog : Catalog n} {record : RecordId n}

def fieldWidth (catalog : Catalog n) (record : RecordId n) (field : FieldDef n) : Option Nat :=
  match field.wire (catalog record).name with
  | .ok (.leaf kind) => kind.width?
  | .ok (.nested target) => catalog.fixedSize target
  | .error _ => none

theorem fixedSize_of_outcome {schema : Schema n} (houtcome : catalog.outcome record = .ok schema) :
    catalog.fixedSize record = schema.fixedSize := by
  rw [fixedSize, houtcome]
  rfl

/-- The width in the layout of a field is that of the field, since schemas are outcomes of
analysis. -/
theorem LaysOut.width_eq {registry : Registry n} {field : FieldDef n} {layout : FieldLayout n}
    (h : catalog.LaysOut registry.known record field layout) (hregistry : registry.Faithful catalog)
    (hacyclic : ¬ catalog.ReachesCycle record) :
    layout.width? = catalog.fieldWidth record field := by
  rw [fieldWidth, h.wire_eq]
  cases hwire : layout.wire with
  | leaf kind => exact h.width_of_leaf kind hwire
  | nested target =>
    have hflag := isInfinitelyNested_eq_false_iff.2 hacyclic
    obtain ⟨schema, hschema, hwidth⟩ :=
      exists_known_of_run_nestedWidth hflag (h.width_of_nested target hwire)
    have houtcome := Registry.Faithful.get?_eq_outcome hregistry hschema
    exact hwidth.symm.trans (fixedSize_of_outcome houtcome.symm).symm

/-- The fixed size of a record that reaches no cycle is the sum of the widths of its fields, as a
count. -/
theorem fixedSize_eq_totalWidth (haccepts : catalog.Accepts record)
    (hacyclic : ¬ catalog.ReachesCycle record) :
    catalog.fixedSize record =
      (totalWidth ((catalog record).fields.map (catalog.fieldWidth record))).map wrapCount := by
  obtain ⟨schema, houtcome⟩ := haccepts.exists_outcome
  obtain ⟨registry, hregistry, hfinds⟩ := finds_of_outcome houtcome
  have hflag : schema.cyclic = false :=
    hfinds.cyclic_eq.trans (isInfinitelyNested_eq_false_iff.2 hacyclic)
  have hwidths : (catalog record).fields.map (catalog.fieldWidth record) =
      schema.fields.map (·.width?) :=
    map_eq_map_iff.2 (hfinds.fields.imp fun _ _ hlays => (hlays.width_eq hregistry hacyclic).symm)
  calc
    catalog.fixedSize record = (sumWidths schema.name schema.fields).toOption := by
      rw [fixedSize_of_outcome houtcome, hfinds.fixedSize_eq, hflag, if_neg Bool.false_ne_true]
    _ = (totalWidth ((catalog record).fields.map (catalog.fieldWidth record))).map wrapCount := by
      rw [toOption_sumWidths, hwidths]

end Catalog

end RecordCodec
