import RecordCodec.Proofs.Record.Fingerprint
import RecordCodec.Proofs.Record.Matching
import RecordCodec.Proofs.Record.Sizes

/-!
# Twins

Two records that reach no cycle are twins if they have the same expansion, which is the case if the
same bytes are hashed for them.  Their names need not agree, and neither need the records that are
nested in them: what one family nests twice, another may define twice.  But field by field twins
travel the same way, and records that are nested in the same place are twins again.
-/

namespace RecordCodec

open Fingerprint

variable {n n' : Nat}

/-! ## Fields of the same shape -/

/-- The leaf that a field of the shape travels as, if it is allowed and nests no record. -/
def FieldShape.leaf? : FieldShape → Option Leaf
  | .leaf kind override =>
    match ({ name := "", kind, override } : FieldDef 0).wire "" with
    | .ok (.leaf kind) => some kind
    | _ => none
  | .nested _ _ => none

namespace FieldDef

variable {field : FieldDef n} {field' : FieldDef n'} {record record' : String}
variable {expand : RecordId n → Shape} {expand' : RecordId n' → Shape} {target : RecordId n}

/-- The shape of a field tells whether it is a leaf that is allowed. -/
theorem wire_eq_leaf_iff {leaf : Leaf} (expand : RecordId n → Shape) :
    field.wire record = .ok (.leaf leaf) ↔ (field.shape expand).leaf? = some leaf := by
  rcases field with ⟨name, kind, override⟩
  cases kind with
  | enum variants =>
    cases override <;> by_cases hmany : maxVariants < variants <;>
      simp [wire, shape, FieldShape.leaf?, WidthOverride.width?, hmany]
  | _ => cases override <;> simp [wire, shape, FieldShape.leaf?, WidthOverride.width?]

theorem wire_eq_leaf_of_shape_eq {leaf : Leaf} (hshape : field.shape expand = field'.shape expand')
    (hwire : field.wire record = .ok (.leaf leaf)) : field'.wire record' = .ok (.leaf leaf) := by
  rw [wire_eq_leaf_iff expand', ← hshape]
  exact (wire_eq_leaf_iff expand).1 hwire

theorem exists_nested_of_shape_eq (hshape : field.shape expand = field'.shape expand')
    (hkind : field.kind = .nested target) :
    ∃ target', field'.kind = .nested target' ∧ expand target = expand' target' := by
  rcases field' with ⟨name', kind', override'⟩
  rw [shape, hkind] at hshape
  cases kind' with
  | nested target' => exact ⟨target', rfl, (FieldShape.nested.inj hshape).1⟩
  | _ => cases hshape

end FieldDef

namespace Catalog

variable {catalog : Catalog n} {catalog' : Catalog n'} {record : RecordId n} {record' : RecordId n'}

/-! ## Expansions without references -/

/-- A path does not come up again inside a record that reaches no cycle, so any other one would
do. -/
theorem expansion_eq_of_acyclic {path path' : List (RecordId n)}
    (hacyclic : ¬ catalog.ReachesCycle record) (hpath : catalog.LeadsTo path record)
    (hpath' : catalog.LeadsTo path' record) :
    catalog.expansion path record = catalog.expansion path' record :=
  (Matches.of_unnamed_eq fun _ => rfl).expansion_eq_of_acyclic hacyclic rfl hpath hpath'

/-! ## Records of the same expansion -/

/-- Neither record reaches a cycle or a field that is not allowed, and they have the same
expansion. -/
structure Twins (catalog : Catalog n) (catalog' : Catalog n') (record : RecordId n)
    (record' : RecordId n') : Prop where
  acyclic : ¬ catalog.ReachesCycle record
  acyclic' : ¬ catalog'.ReachesCycle record'
  accepts : catalog.Accepts record
  accepts' : catalog'.Accepts record'
  expansion_eq : catalog.expansion [] record = catalog'.expansion [] record'

/-- The fields travel as the same leaf, or nest twins. -/
inductive TwinFields (catalog : Catalog n) (catalog' : Catalog n') (record : RecordId n)
    (record' : RecordId n') (field : FieldDef n) (field' : FieldDef n') : Prop
  | leaf (kind : Leaf) (hwire : field.wire (catalog record).name = .ok (.leaf kind))
      (hwire' : field'.wire (catalog' record').name = .ok (.leaf kind)) :
      TwinFields catalog catalog' record record' field field'
  | nested (target : RecordId n) (target' : RecordId n')
      (hwire : field.wire (catalog record).name = .ok (.nested target))
      (hwire' : field'.wire (catalog' record').name = .ok (.nested target'))
      (htwins : catalog.Twins catalog' target target') :
      TwinFields catalog catalog' record record' field field'

namespace Twins

theorem of_shapeBytes_eq (hrecord : catalog.WellShaped record)
    (hrecord' : catalog'.WellShaped record') (hacyclic : ¬ catalog.ReachesCycle record)
    (hacyclic' : ¬ catalog'.ReachesCycle record')
    (h : shapeBytes catalog record = shapeBytes catalog' record') :
    catalog.Twins catalog' record record' where
  acyclic := hacyclic
  acyclic' := hacyclic'
  accepts := hrecord.wire
  accepts' := hrecord'.wire
  expansion_eq := expansion_eq_of_shapeBytes_eq hrecord hrecord' (absurd · hacyclic)
    (absurd · hacyclic') (absurd · hacyclic) (absurd · hacyclic') h

variable (h : catalog.Twins catalog' record record')
include h

/-- Records are twins that the same field nests on both sides. -/
theorem nested {target : RecordId n} {target' : RecordId n'} (hnests : catalog.Nests record target)
    (hnests' : catalog'.Nests record' target')
    (hexpansion : catalog.expansion ([] ++ [record]) target =
      catalog'.expansion ([] ++ [record']) target') : catalog.Twins catalog' target target' := by
  have hacyclic := mt (ReachesCycle.of_nests hnests) h.acyclic
  have hacyclic' := mt (ReachesCycle.of_nests hnests') h.acyclic'
  have hpath := (catalog.leadsTo_nil record).enter List.not_mem_nil hnests
  have hpath' := (catalog'.leadsTo_nil record').enter List.not_mem_nil hnests'
  exact {
    acyclic := hacyclic
    acyclic' := hacyclic'
    accepts := h.accepts.of_reaches (.single hnests)
    accepts' := h.accepts'.of_reaches (.single hnests')
    expansion_eq := calc
      catalog.expansion [] target = catalog.expansion ([] ++ [record]) target :=
        expansion_eq_of_acyclic hacyclic (catalog.leadsTo_nil target) hpath
      _ = catalog'.expansion ([] ++ [record']) target' := hexpansion
      _ = catalog'.expansion [] target' :=
        expansion_eq_of_acyclic hacyclic' hpath' (catalog'.leadsTo_nil target') }

/-- The fields of twins, side by side, travel the same way. -/
theorem fields : List.Forall₂ (catalog.TwinFields catalog' record record')
    (catalog record).fields (catalog' record').fields := by
  have hshapes := h.expansion_eq
  rw [expansion_of_notMem List.not_mem_nil, expansion_of_notMem List.not_mem_nil,
    Shape.fields.injEq, map_eq_map_iff, List.forall₂_iff_zip] at hshapes
  obtain ⟨hlength, hshapes⟩ := hshapes
  refine List.forall₂_iff_zip.2 ⟨hlength, fun {field field'} hmem => ?_⟩
  have hshape := hshapes hmem
  obtain ⟨hfield, hfield'⟩ := List.of_mem_zip hmem
  obtain ⟨wire, hwire⟩ := h.accepts record .refl field hfield
  cases wire with
  | leaf kind => exact .leaf kind hwire (FieldDef.wire_eq_leaf_of_shape_eq hshape hwire)
  | nested target =>
    obtain ⟨-, hkind⟩ := FieldDef.wire_eq_nested_iff.1 hwire
    obtain ⟨target', hkind', hexpansion⟩ := FieldDef.exists_nested_of_shape_eq hshape hkind
    have hallowed := h.accepts' record' .refl field' hfield'
    exact .nested target target' hwire (FieldDef.wire_eq_nested_iff.2 ⟨hallowed, hkind'⟩)
      (h.nested (nests_iff.2 ⟨field, hfield, hkind⟩) (nests_iff.2 ⟨field', hfield', hkind'⟩)
        hexpansion)

omit h in
/-- Twins have the same fixed size. -/
theorem fixedSize_eq (h : catalog.Twins catalog' record record') :
    catalog.fixedSize record = catalog'.fixedSize record' := by
  have hacyclic := h.acyclic
  revert record'
  refine acyclic_induction (motive := fun record => ∀ {record'},
    catalog.Twins catalog' record record' → catalog.fixedSize record = catalog'.fixedSize record')
    (fun record _ ih record' h => ?_) hacyclic
  have hwidths : (catalog record).fields.map (catalog.fieldWidth record) =
      (catalog' record').fields.map (catalog'.fieldWidth record') := by
    refine map_eq_map_iff.2
      (List.forall₂_iff_zip.2 ⟨h.fields.length_eq, fun {field field'} hmem => ?_⟩)
    have hfield := (List.of_mem_zip hmem).1
    cases (List.forall₂_iff_zip.1 h.fields).2 hmem with
    | leaf kind hwire hwire' => simp [fieldWidth, hwire, hwire']
    | nested target target' hwire hwire' htwins =>
      simp only [fieldWidth, hwire, hwire']
      exact ih target (nests_of_wire hfield hwire) htwins
  rw [fixedSize_eq_totalWidth h.accepts h.acyclic, fixedSize_eq_totalWidth h.accepts' h.acyclic',
    hwidths]

end Twins

end Catalog

end RecordCodec
