import RecordCodec.Proofs.Outcome
import RecordCodec.Proofs.Record.Expansion
import Mathlib.Logic.Relator

/-!
# Matching records

Two families match along a relation if related records have the same fields in order, names aside,
and what such fields nest is related again.  The records may have other identities and other names,
and what one family defines once the other may define several times.  The fingerprint sees none of
it as long as the relation is one-to-one, or as long as no cycle can be reached; a cycle that is
unrolled shows, as the references to the outer records then have other depths.
-/

namespace RecordCodec

open Fingerprint

variable {n n' : Nat}

/-! ## Fields side by side -/

/-- The kinds are the same, with the same number of variants, or nest related records. -/
inductive FieldKind.Matches (related : RecordId n → RecordId n' → Prop) :
    FieldKind n → FieldKind n' → Prop
  | int8 : Matches related .int8 .int8
  | int16 : Matches related .int16 .int16
  | int32 : Matches related .int32 .int32
  | int64 : Matches related .int64 .int64
  | float32 : Matches related .float32 .float32
  | float64 : Matches related .float64 .float64
  | char16 : Matches related .char16 .char16
  | bool : Matches related .bool .bool
  | enum (variants : Nat) : Matches related (.enum variants) (.enum variants)
  | text : Matches related .text .text
  | bytes : Matches related .bytes .bytes
  | nested {target : RecordId n} {target' : RecordId n'} (h : related target target') :
      Matches related (.nested target) (.nested target')

/-- The fields match in kind and have the same override, whatever they are called. -/
structure FieldDef.Matches (related : RecordId n → RecordId n' → Prop) (field : FieldDef n)
    (field' : FieldDef n') : Prop where
  kind : field.kind.Matches related field'.kind
  override_eq : field.override = field'.override

/-- Related records have as many fields, and these match position by position. -/
def Catalog.Matches (catalog : Catalog n) (catalog' : Catalog n')
    (related : RecordId n → RecordId n' → Prop) : Prop :=
  ∀ record record', related record record' →
    List.Forall₂ (FieldDef.Matches related) (catalog record).fields (catalog' record').fields

def RecordDef.unnamed (definition : RecordDef n) : RecordDef n where
  name := ""
  fields := definition.fields.map ({ · with name := "" })

section Fields

variable {related : RecordId n → RecordId n' → Prop}

theorem FieldKind.matches_eq (kind : FieldKind n) : kind.Matches Eq kind := by
  cases kind with
  | nested target => exact .nested rfl
  | _ => constructor

theorem FieldDef.Matches.shape_eq {field : FieldDef n} {field' : FieldDef n'}
    {expand : RecordId n → Shape} {expand' : RecordId n' → Shape} (h : field.Matches related field')
    (hnested : ∀ target target', field.kind = .nested target → field'.kind = .nested target' →
      related target target' → expand target = expand' target') :
    field.shape expand = field'.shape expand' := by
  rcases field with ⟨name, kind, override⟩
  rcases field' with ⟨name', kind', override'⟩
  obtain ⟨hkind, rfl⟩ := h
  cases hkind with
  | nested htarget => exact congrArg (FieldShape.nested · override) (hnested _ _ rfl rfl htarget)
  | _ => rfl

/-- Along a one-to-one relation, related records have the same place on paths side by side. -/
theorem idxOf_eq_of_forall₂ {path : List (RecordId n)} {path' : List (RecordId n')}
    {record : RecordId n} {record' : RecordId n'} (hunique : Relator.BiUnique related)
    (hpath : List.Forall₂ related path path') (hrelated : related record record') :
    path.idxOf record = path'.idxOf record' := by
  induction hpath with
  | nil => rfl
  | @cons first first' path path' hfirst hpath ih =>
    have hiff : first = record ↔ first' = record' := Relator.rel_eq hunique hfirst hrelated
    by_cases heq : first = record
    · rw [heq, hiff.1 heq, List.idxOf_cons_self, List.idxOf_cons_self]
    · rw [List.idxOf_cons_ne _ heq, List.idxOf_cons_ne _ (mt hiff.2 heq), ih]

end Fields

/-! ## Records in step -/

namespace Catalog.Matches

variable {catalog : Catalog n} {catalog' : Catalog n'} {related : RecordId n → RecordId n' → Prop}
variable {record : RecordId n} {record' : RecordId n'}

/-- Families that differ in names only match along equality. -/
theorem of_unnamed_eq {catalog renamed : Catalog n}
    (h : ∀ record, (renamed record).unnamed = (catalog record).unnamed) :
    renamed.Matches catalog Eq := by
  rintro record _ rfl
  have hfields : (renamed record).fields.map ({ · with name := "" } : FieldDef n → FieldDef n) =
      (catalog record).fields.map ({ · with name := "" }) := congrArg RecordDef.fields (h record)
  refine (map_eq_map_iff.1 hfields).imp fun field field' hfield => ?_
  obtain ⟨-, hkind, hoverride⟩ := FieldDef.mk.inj hfield
  exact ⟨hkind ▸ field.kind.matches_eq, hoverride⟩

variable (h : catalog.Matches catalog' related)
include h

/-- The records that related ones nest are related in turn. -/
theorem nested (hrelated : related record record') :
    List.Forall₂ related (catalog record).nested (catalog' record').nested := by
  refine List.rel_filterMap (fun field field' hfield => ?_) (h record record' hrelated)
  have hkind := hfield.kind
  generalize field.kind = kind at hkind
  generalize field'.kind = kind' at hkind
  cases hkind with
  | nested htarget => exact .some htarget
  | _ => exact .none

/-- A cycle that a record reaches is also reached from the records that it is related to. -/
theorem acyclic (hacyclic : ¬ catalog.ReachesCycle record) (hrelated : related record record') :
    ¬ catalog'.ReachesCycle record' := by
  revert record'
  refine acyclic_induction (motive := fun record => ∀ {record'}, related record record' →
    ¬ catalog'.ReachesCycle record') (fun record _ ih record' hrelated hcycle => ?_) hacyclic
  obtain ⟨target', hnests', hcycle'⟩ := reachesCycle_iff.1 hcycle
  obtain ⟨target, hnests, htarget⟩ := exists_left_of_forall₂ (h.nested hrelated) hnests'
  exact ih target hnests htarget hcycle'

/-- Records that repeat no outer one have the same expansion if what they nest has. -/
theorem expansion_eq_of_notMem {path : List (RecordId n)} {path' : List (RecordId n')}
    (hrelated : related record record') (hnew : record ∉ path) (hnew' : record' ∉ path')
    (hnested : ∀ target target', catalog.Nests record target → catalog'.Nests record' target' →
      related target target' → catalog.expansion (path ++ [record]) target =
        catalog'.expansion (path' ++ [record']) target') :
    catalog.expansion path record = catalog'.expansion path' record' := by
  rw [expansion_of_notMem hnew, expansion_of_notMem hnew', Shape.fields.injEq, map_eq_map_iff,
    List.forall₂_iff_zip]
  obtain ⟨hlength, hfields⟩ := List.forall₂_iff_zip.1 (h record record' hrelated)
  refine ⟨hlength, fun {field field'} hmem => (hfields hmem).shape_eq ?_⟩
  obtain ⟨hfield, hfield'⟩ := List.of_mem_zip hmem
  intro target target' hkind hkind' htarget
  exact hnested target target' (nests_iff.2 ⟨field, hfield, hkind⟩)
    (nests_iff.2 ⟨field', hfield', hkind'⟩) htarget

/-- A one-to-one relation keeps the paths side by side, so a record repeats the outer one of some
depth if and only if the related one does. -/
theorem expansion_eq_of_biUnique (hunique : Relator.BiUnique related)
    {path : List (RecordId n)} {path' : List (RecordId n')}
    (hpath : List.Forall₂ related path path') (hrelated : related record record') :
    catalog.expansion path record = catalog'.expansion path' record' := by
  have hmem : record ∈ path ↔ record' ∈ path' := List.rel_mem hunique hrelated hpath
  induction path, record using expansion.induct generalizing path' record' with
  | case1 path record hrepeated =>
    rw [expansion_of_mem hrepeated, expansion_of_mem (hmem.1 hrepeated),
      idxOf_eq_of_forall₂ hunique hpath hrelated]
  | case2 path record hnew ih =>
    apply h.expansion_eq_of_notMem hrelated hnew (mt hmem.2 hnew)
    intro target target' _ _ htarget
    have hlonger : List.Forall₂ related (path ++ [record]) (path' ++ [record']) :=
      List.rel_append hpath (.cons hrelated .nil)
    exact ih target hlonger htarget (List.rel_mem hunique htarget hlonger)

/-- Without a cycle no record repeats an outer one, whatever the paths are. -/
theorem expansion_eq_of_acyclic (hacyclic : ¬ catalog.ReachesCycle record)
    {path : List (RecordId n)} {path' : List (RecordId n')} (hrelated : related record record')
    (hpath : catalog.LeadsTo path record) (hpath' : catalog'.LeadsTo path' record') :
    catalog.expansion path record = catalog'.expansion path' record' := by
  revert record' path path'
  refine acyclic_induction (motive := fun record => ∀ {record' path path'},
    related record record' → catalog.LeadsTo path record → catalog'.LeadsTo path' record' →
      catalog.expansion path record = catalog'.expansion path' record')
    (fun record hacyclic ih record' path path' hrelated hpath hpath' => ?_) hacyclic
  have hnew := hpath.notMem_of_acyclic hacyclic
  have hnew' := hpath'.notMem_of_acyclic (h.acyclic hacyclic hrelated)
  apply h.expansion_eq_of_notMem hrelated hnew hnew'
  intro target target' hnests hnests' htarget
  exact ih target hnests htarget (hpath.enter hnew hnests) (hpath'.enter hnew' hnests')

end Catalog.Matches

/-! ## The fingerprint -/

/-- The same bytes are hashed for records that are related by a relation along which the families
match, if it is one-to-one or no cycle can be reached.  Names have no part in them. -/
theorem Fingerprint.shapeBytes_of_matches (catalog : Catalog n) (record : RecordId n) :
    (∀ {n' : Nat} (catalog' : Catalog n') (related : RecordId n → RecordId n' → Prop)
      (record' : RecordId n'), catalog.Matches catalog' related → related record record' →
        (Relator.BiUnique related → shapeBytes catalog record = shapeBytes catalog' record') ∧
          (¬ catalog.ReachesCycle record →
            shapeBytes catalog record = shapeBytes catalog' record')) ∧
      ∀ renamed : Catalog n, (∀ other, (renamed other).unnamed = (catalog other).unnamed) →
        shapeBytes renamed record = shapeBytes catalog record := by
  refine ⟨fun catalog' related record' hmatches hrelated => ⟨fun hunique => ?_, fun hacyclic => ?_⟩,
    fun renamed hunnamed => ?_⟩
  · rw [shapeBytes_eq, shapeBytes_eq, hmatches.expansion_eq_of_biUnique hunique .nil hrelated]
  · rw [shapeBytes_eq, shapeBytes_eq, hmatches.expansion_eq_of_acyclic hacyclic hrelated
      (catalog.leadsTo_nil record) (catalog'.leadsTo_nil record')]
  · have hunique : Relator.BiUnique (Eq : RecordId n → RecordId n → Prop) :=
      ⟨fun _ _ _ h h' => h.trans h'.symm, fun _ _ _ h h' => h.symm.trans h'⟩
    rw [shapeBytes_eq, shapeBytes_eq,
      (Catalog.Matches.of_unnamed_eq hunnamed).expansion_eq_of_biUnique hunique .nil rfl]

namespace Sample

/-- A strap has two holes, and a ring has a hole and the next ring. -/
def harnessCatalog : Catalog 4
  | 0 => { name := "Strap", fields := [⟨"left", .nested 1, .none⟩, ⟨"right", .nested 1, .none⟩] }
  | 1 => { name := "Hole", fields := [⟨"size", .int16, .asU8⟩] }
  | 2 => { name := "Ring", fields := [⟨"hole", .nested 1, .none⟩, ⟨"next", .nested 2, .none⟩] }
  | 3 => { name := "Mark", fields := [⟨"text", .text, .none⟩] }

/-- A loop is a ring by another name, and a belt a strap with two kinds of holes. -/
def beltCatalog : Catalog 4
  | 0 => { name := "Loop", fields := [⟨"gap", .nested 1, .none⟩, ⟨"rest", .nested 0, .none⟩] }
  | 1 => { name := "Gap", fields := [⟨"width", .int16, .asU8⟩] }
  | 2 => { name := "Belt", fields := [⟨"first", .nested 1, .none⟩, ⟨"last", .nested 3, .none⟩] }
  | 3 => { name := "Eye", fields := [⟨"opening", .int16, .asU8⟩] }

/-- Rings and loops reach cycles, but each has one counterpart only; the holes of a strap have two,
but no cycle can be reached. -/
theorem harness_shapeBytes :
    (shapeBytes harnessCatalog 2 = shapeBytes beltCatalog 0 ∧ harnessCatalog.ReachesCycle 2) ∧
      (shapeBytes harnessCatalog 0 = shapeBytes beltCatalog 2 ∧
        ¬ harnessCatalog.ReachesCycle 0) ∧
      shapeBytes (harnessCatalog.define 1 (beltCatalog 1)) 2 = shapeBytes harnessCatalog 2 := by
  have hloop : harnessCatalog.Matches beltCatalog
      fun record record' => record = 2 ∧ record' = 0 ∨ record = 1 ∧ record' = 1 := by
    rintro _ _ (⟨rfl, rfl⟩ | ⟨rfl, rfl⟩)
    · exact .cons ⟨.nested (.inr ⟨rfl, rfl⟩), rfl⟩ (.cons ⟨.nested (.inl ⟨rfl, rfl⟩), rfl⟩ .nil)
    · exact .cons ⟨.int16, rfl⟩ .nil
  have hbelt : harnessCatalog.Matches beltCatalog fun record record' =>
      record = 0 ∧ record' = 2 ∨ record = 1 ∧ (record' = 1 ∨ record' = 3) := by
    rintro _ _ (⟨rfl, rfl⟩ | ⟨rfl, rfl | rfl⟩)
    · exact .cons ⟨.nested (.inr ⟨rfl, .inl rfl⟩), rfl⟩
        (.cons ⟨.nested (.inr ⟨rfl, .inr rfl⟩), rfl⟩ .nil)
    · exact .cons ⟨.int16, rfl⟩ .nil
    · exact .cons ⟨.int16, rfl⟩ .nil
  have hunique : Relator.BiUnique fun record record' : RecordId 4 =>
      record = 2 ∧ record' = 0 ∨ record = 1 ∧ record' = 1 := by
    constructor <;> intro first second third <;> revert first second third <;> decide
  have hacyclic : ¬ harnessCatalog.ReachesCycle 0 :=
    Catalog.isInfinitelyNested_eq_false_iff.1 (by decide)
  have hrenamed : ∀ other, (harnessCatalog.define 1 (beltCatalog 1) other).unnamed =
      (harnessCatalog other).unnamed := by decide
  exact ⟨⟨((shapeBytes_of_matches harnessCatalog 2).1 _ _ 0 hloop (.inl ⟨rfl, rfl⟩)).1 hunique,
      Catalog.isInfinitelyNested_iff.1 (by decide)⟩,
    ⟨((shapeBytes_of_matches harnessCatalog 0).1 _ _ 2 hbelt (.inl ⟨rfl, rfl⟩)).2 hacyclic,
      hacyclic⟩,
    (shapeBytes_of_matches harnessCatalog 2).2 _ hrenamed⟩

end Sample

end RecordCodec
