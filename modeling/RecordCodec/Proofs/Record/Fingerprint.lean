import RecordCodec.Layout.Schema
import RecordCodec.Proofs.Record.Expansion

/-!
# What a fingerprint tells apart

The hashed bytes of a record can be read back to its expansion as long as it is clear whether a
nested record or a reference comes next.  A reference begins with the byte `0xFF`, and a nested
record with the lowest byte of the number of its fields.  So the bytes of two records tell their
expansions apart, unless one of them has references and the other nests a record the number of whose
fields ends in that byte.  Then they may fail to: there are two records of different expansions with
the same bytes.
-/

namespace RecordCodec

open Fingerprint

variable {n : Nat}

/-! ## Numbers and tags -/

namespace Fingerprint

variable {rest rest' : List UInt8}

theorem countBytes_append_inj {count count' : Nat} (hcount : count < 2 ^ 32)
    (hcount' : count' < 2 ^ 32) (h : countBytes count ++ rest = countBytes count' ++ rest') :
    count = count' ∧ rest = rest' := by
  have hlength : (countBytes count).length = (countBytes count').length := by
    simp [countBytes]
  obtain ⟨hbytes, hrest⟩ := List.append_inj h hlength
  refine ⟨?_, hrest⟩
  calc
    count = BigEndian.decode (BigEndian.encode 4 count) :=
      (BigEndian.decode_encode_of_lt hcount).symm
    _ = BigEndian.decode (BigEndian.encode 4 count') := by
      rw [List.reverse_injective hbytes]
    _ = count' := BigEndian.decode_encode_of_lt hcount'

/-- The bytes of a count begin with its lowest byte. -/
theorem mod_of_countBytes_append_eq {count : Nat} {byte : UInt8}
    (h : countBytes count ++ rest = byte :: rest') : count % 256 = byte.toNat := by
  have hfirst : UInt8.ofNat (count / 1) = byte := (List.cons.inj h).1
  rw [← hfirst, UInt8.toNat_ofNat', Nat.div_one]

theorem overrideTag_inj {override override' : WidthOverride}
    (h : overrideTag override = overrideTag override') : override = override' := by
  cases override <;> cases override' <;> first | rfl | exact absurd h (by decide)

end Fingerprint

/-- An enum does not have more variants than four bytes can count. -/
def FieldKind.Countable : FieldKind n → Prop
  | enum variants => variants < 2 ^ 32
  | _ => True

theorem Fingerprint.kindTag_append_inj {kind kind' : FieldKind 0} {rest rest' : List UInt8}
    (hkind : kind.Countable) (hkind' : kind'.Countable)
    (h : kindTag kind ++ rest = kindTag kind' ++ rest') : kind = kind' ∧ rest = rest' := by
  cases kind with
  | nested target => exact target.elim0
  | enum variants =>
    cases kind' with
    | nested target => exact target.elim0
    | enum variants' =>
      obtain ⟨rfl, hrest⟩ := countBytes_append_inj hkind hkind' (List.cons.inj h).2
      exact ⟨rfl, hrest⟩
    | _ => exact absurd (List.cons.inj h).1 (by decide)
  | _ =>
    cases kind' with
    | nested target => exact target.elim0
    | _ => first | exact ⟨rfl, (List.cons.inj h).2⟩ | exact absurd (List.cons.inj h).1 (by decide)

theorem Fingerprint.kindTag_append_ne (kind : FieldKind 0) {rest rest' : List UInt8} :
    kindTag kind ++ rest ≠ 11 :: rest' := by
  intro h
  cases kind with
  | nested target => exact target.elim0
  | _ => exact absurd (List.cons.inj h).1 (by decide)

/-! ## Reading shapes back -/

/-- The numbers of fields of nested records, and the depths of references. -/
structure ShapeBounds where
  counts : Nat → Prop
  depths : Nat → Prop

mutual

/-- The numbers in the shape are among those of `bounds`, and its enums are countable. -/
def Shape.Within (bounds : ShapeBounds) : Shape → Prop
  | .fields shapes => bounds.counts shapes.length ∧ FieldShape.AllWithin bounds shapes
  | .enclosing depth => bounds.depths depth

def FieldShape.Within (bounds : ShapeBounds) : FieldShape → Prop
  | .leaf kind _ => kind.Countable
  | .nested record _ => record.Within bounds

def FieldShape.AllWithin (bounds : ShapeBounds) : List FieldShape → Prop
  | [] => True
  | shape :: shapes => shape.Within bounds ∧ FieldShape.AllWithin bounds shapes

end

/-- Four bytes are enough for all numbers, and no number of fields of the one kind begins like a
reference of the other. -/
structure ShapeBounds.Apart (bounds bounds' : ShapeBounds) : Prop where
  count_lt : ∀ count, bounds.counts count → count < 2 ^ 32
  count_lt' : ∀ count, bounds'.counts count → count < 2 ^ 32
  depth_lt : ∀ depth, bounds.depths depth → depth < 2 ^ 32
  depth_lt' : ∀ depth, bounds'.depths depth → depth < 2 ^ 32
  count_apart : ∀ count depth, bounds.counts count → bounds'.depths depth → count % 256 ≠ 255
  count_apart' : ∀ count depth, bounds'.counts count → bounds.depths depth → count % 256 ≠ 255

section ReadingBack

variable {bounds bounds' : ShapeBounds} {rest rest' : List UInt8}

mutual

/-- Bytes that begin with a shape begin with no other shape. -/
theorem Shape.bytes_append_inj (hapart : bounds.Apart bounds') :
    ∀ {shape shape' : Shape}, shape.Within bounds → shape'.Within bounds' →
      ∀ {rest rest' : List UInt8}, shape.bytes ++ rest = shape'.bytes ++ rest' →
        shape = shape' ∧ rest = rest'
  | .fields shapes, .fields shapes', hshape, hshape', rest, rest', h => by
    rw [Shape.bytes, Shape.bytes, List.append_assoc, List.append_assoc] at h
    obtain ⟨hcount, hfields⟩ := countBytes_append_inj (hapart.count_lt _ hshape.1)
      (hapart.count_lt' _ hshape'.1) h
    obtain ⟨rfl, hrest⟩ :=
      FieldShape.listBytes_append_inj hapart hshape.2 hshape'.2 hcount hfields
    exact ⟨rfl, hrest⟩
  | .enclosing depth, .enclosing depth', hshape, hshape', rest, rest', h => by
    obtain ⟨rfl, hrest⟩ := countBytes_append_inj (hapart.depth_lt _ hshape)
      (hapart.depth_lt' _ hshape') (List.cons.inj h).2
    exact ⟨rfl, hrest⟩
  | .fields shapes, .enclosing depth, hshape, hshape', rest, rest', h => by
    rw [Shape.bytes, List.append_assoc] at h
    exact absurd (mod_of_countBytes_append_eq h) (hapart.count_apart _ _ hshape.1 hshape')
  | .enclosing depth, .fields shapes, hshape, hshape', rest, rest', h => by
    rw [Shape.bytes.eq_1 shapes, List.append_assoc] at h
    exact absurd (mod_of_countBytes_append_eq h.symm) (hapart.count_apart' _ _ hshape'.1 hshape)

theorem FieldShape.bytes_append_inj (hapart : bounds.Apart bounds') :
    ∀ {shape shape' : FieldShape}, shape.Within bounds → shape'.Within bounds' →
      ∀ {rest rest' : List UInt8}, shape.bytes ++ rest = shape'.bytes ++ rest' →
        shape = shape' ∧ rest = rest'
  | .leaf kind override, .leaf kind' override', hshape, hshape', rest, rest', h => by
    rw [FieldShape.bytes, FieldShape.bytes, List.append_assoc, List.append_assoc] at h
    obtain ⟨rfl, hothers⟩ := kindTag_append_inj hshape hshape' h
    obtain ⟨hoverride, hrest⟩ := List.cons.inj hothers
    obtain rfl := overrideTag_inj hoverride
    exact ⟨rfl, hrest⟩
  | .nested record override, .nested record' override', hshape, hshape', rest, rest', h => by
    rw [FieldShape.bytes, FieldShape.bytes, List.cons_append, List.cons_append,
      List.append_assoc, List.append_assoc] at h
    obtain ⟨rfl, hothers⟩ :=
      Shape.bytes_append_inj hapart hshape hshape' (List.cons.inj h).2
    obtain ⟨hoverride, hrest⟩ := List.cons.inj hothers
    obtain rfl := overrideTag_inj hoverride
    exact ⟨rfl, hrest⟩
  | .leaf kind override, .nested record override', hshape, hshape', rest, rest', h => by
    rw [FieldShape.bytes, List.append_assoc] at h
    exact absurd h (kindTag_append_ne kind)
  | .nested record override, .leaf kind override', hshape, hshape', rest, rest', h => by
    rw [FieldShape.bytes.eq_1 kind, List.append_assoc] at h
    exact absurd h.symm (kindTag_append_ne kind)

theorem FieldShape.listBytes_append_inj (hapart : bounds.Apart bounds') :
    ∀ {shapes shapes' : List FieldShape}, FieldShape.AllWithin bounds shapes →
      FieldShape.AllWithin bounds' shapes' → shapes.length = shapes'.length →
      ∀ {rest rest' : List UInt8},
        FieldShape.listBytes shapes ++ rest = FieldShape.listBytes shapes' ++ rest' →
        shapes = shapes' ∧ rest = rest'
  | [], [], _, _, _, rest, rest', h => ⟨rfl, h⟩
  | shape :: shapes, shape' :: shapes', hshapes, hshapes', hlength, rest, rest', h => by
    rw [FieldShape.listBytes, FieldShape.listBytes, List.append_assoc, List.append_assoc] at h
    obtain ⟨rfl, hothers⟩ := FieldShape.bytes_append_inj hapart hshapes.1 hshapes'.1 h
    obtain ⟨rfl, hrest⟩ := FieldShape.listBytes_append_inj hapart hshapes.2 hshapes'.2
      (Nat.succ.inj hlength) hothers
    exact ⟨rfl, hrest⟩

end

end ReadingBack

/-! ## Expansions of records -/

/-- Resolving a field refuses an enum with too many variants. -/
theorem FieldDef.countable_of_wire {record : String} {field : FieldDef n} {wire : Wire (RecordId n)}
    (h : field.wire record = .ok wire) : field.kind.Countable := by
  cases hkind : field.kind with
  | enum variants =>
    rw [FieldDef.wire, hkind] at h
    cases hwidth : field.override.width? with
    | some width =>
      rw [hwidth] at h
      cases h
    | none =>
      by_cases hmany : maxVariants < variants
      · simp [hwidth, hmany] at h
      · exact Nat.lt_of_le_of_lt (Nat.not_lt.1 hmany) (by decide)
  | _ => trivial

theorem FieldDef.shape_within {bounds : ShapeBounds} {expand : RecordId n → Shape}
    {field : FieldDef n} (hcountable : field.kind.Countable)
    (hnested : ∀ target, field.kind = .nested target → (expand target).Within bounds) :
    (field.shape expand).Within bounds := by
  rcases field with ⟨name, kind, override⟩
  cases kind with
  | nested target => exact hnested target rfl
  | enum variants => exact hcountable
  | _ => trivial

theorem FieldShape.allWithin_map {bounds : ShapeBounds} {expand : RecordId n → Shape}
    {fields : List (FieldDef n)} (h : ∀ field ∈ fields, (field.shape expand).Within bounds) :
    FieldShape.AllWithin bounds (fields.map (FieldDef.shape expand)) := by
  induction fields with
  | nil => trivial
  | cons field fields ih =>
    exact ⟨h field List.mem_cons_self,
      ih fun other hother => h other (List.mem_cons_of_mem _ hother)⟩

namespace Catalog

variable {catalog : Catalog n} {root record : RecordId n} {path : List (RecordId n)}

/-- Every field that can be reached from `record` is allowed, and four bytes can count the fields of
every record. -/
structure WellShaped (catalog : Catalog n) (record : RecordId n) : Prop where
  wire : ∀ inner, catalog.Reaches record inner →
    ∀ field ∈ (catalog inner).fields, ∃ wire, field.wire (catalog inner).name = .ok wire
  count_lt : ∀ inner, catalog.Reaches record inner → (catalog inner).fields.length < 2 ^ 32

/-- Inside `record` there is another one whose number of fields ends in the byte of a reference. -/
def NestsMarked (catalog : Catalog n) (record : RecordId n) : Prop :=
  ∃ inner, catalog.Reaches record inner ∧ inner ≠ record ∧
    (catalog inner).fields.length % 256 = backReference.toNat

/-- The numbers in the expansion of `root`, of which the number of its own fields is not one. -/
def shapeBounds (catalog : Catalog n) (root : RecordId n) : ShapeBounds where
  counts count :=
    ∃ inner, catalog.Reaches root inner ∧ inner ≠ root ∧ (catalog inner).fields.length = count
  depths depth := depth < n ∧ catalog.ReachesCycle root

/-- The fields of a record that can be reached are within the bounds if the records in them are. -/
theorem allWithin_fields {bounds : ShapeBounds} {expand : RecordId n → Shape}
    (hroot : catalog.WellShaped root) (hreaches : catalog.Reaches root record)
    (hnested : ∀ target, catalog.Nests record target → (expand target).Within bounds) :
    FieldShape.AllWithin bounds ((catalog record).fields.map (FieldDef.shape expand)) := by
  apply FieldShape.allWithin_map
  intro field hfield
  obtain ⟨wire, hwire⟩ := hroot.wire record hreaches field hfield
  apply FieldDef.shape_within (FieldDef.countable_of_wire hwire)
  intro target hkind
  exact hnested target (nests_iff.2 ⟨field, hfield, hkind⟩)

/-- A record on the path lies inside itself; any other one adds its fields, and is not `root`. -/
theorem within_expansion (hroot : catalog.WellShaped root) (hmem : root ∈ path)
    (hpath : catalog.LeadsTo path record) :
    (catalog.expansion path record).Within (catalog.shapeBounds root) := by
  induction path, record using Catalog.expansion.induct with
  | case1 path record hrepeated =>
    have hreaches : catalog.Reaches root record := (hpath.encloses root hmem).to_reflTransGen
    rw [expansion_of_mem hrepeated]
    exact ⟨Nat.lt_of_lt_of_le (List.idxOf_lt_length_of_mem hrepeated) hpath.length_le,
      record, hreaches, hpath.encloses record hrepeated⟩
  | case2 path record hnew ih =>
    have hreaches : catalog.Reaches root record := (hpath.encloses root hmem).to_reflTransGen
    have hother : record ≠ root := fun heq => hnew (heq ▸ hmem)
    rw [expansion_of_notMem hnew]
    refine ⟨⟨record, hreaches, hother, (List.length_map _).symm⟩, ?_⟩
    apply allWithin_fields hroot hreaches
    intro target hnests
    exact ih target (List.mem_append_left _ hmem) (hpath.enter hnew hnests)

theorem exists_expansion_eq_fields (hroot : catalog.WellShaped root) :
    ∃ shapes, catalog.expansion [] root = .fields shapes ∧ shapes.length < 2 ^ 32 ∧
      FieldShape.AllWithin (catalog.shapeBounds root) shapes := by
  have hnew : root ∉ ([] : List (RecordId n)) := List.not_mem_nil
  rw [expansion_of_notMem hnew]
  refine ⟨_, rfl, ?_, ?_⟩
  · rw [List.length_map]
    exact hroot.count_lt root .refl
  · apply allWithin_fields hroot .refl
    intro target hnests
    exact within_expansion hroot (List.mem_singleton_self root)
      ((catalog.leadsTo_nil root).enter hnew hnests)

end Catalog

section TwoRecords

variable {n' : Nat} {catalog : Catalog n} {catalog' : Catalog n'}
variable {record : RecordId n} {record' : RecordId n'}

/-- Only a record that reaches a cycle has references inside, which have to be small and told apart
from the numbers of fields. -/
theorem Catalog.expansion_eq_of_shapeBytes_eq
    (hrecord : catalog.WellShaped record) (hrecord' : catalog'.WellShaped record')
    (hfamily : catalog.ReachesCycle record → n ≤ 2 ^ 32)
    (hfamily' : catalog'.ReachesCycle record' → n' ≤ 2 ^ 32)
    (hclear : catalog.ReachesCycle record → ¬ catalog'.NestsMarked record')
    (hclear' : catalog'.ReachesCycle record' → ¬ catalog.NestsMarked record)
    (h : shapeBytes catalog record = shapeBytes catalog' record') :
    catalog.expansion [] record = catalog'.expansion [] record' := by
  rw [shapeBytes_eq, shapeBytes_eq] at h
  have hapart : (catalog.shapeBounds record).Apart (catalog'.shapeBounds record') := {
    count_lt := fun _ ⟨inner, hinner, _, heq⟩ => heq ▸ hrecord.count_lt inner hinner
    count_lt' := fun _ ⟨inner, hinner, _, heq⟩ => heq ▸ hrecord'.count_lt inner hinner
    depth_lt := fun _ hdepth => Nat.lt_of_lt_of_le hdepth.1 (hfamily hdepth.2)
    depth_lt' := fun _ hdepth => Nat.lt_of_lt_of_le hdepth.1 (hfamily' hdepth.2)
    count_apart := fun _ _ ⟨inner, hinner, hother, heq⟩ hdepth hmarked =>
      hclear' hdepth.2 ⟨inner, hinner, hother, heq ▸ hmarked⟩
    count_apart' := fun _ _ ⟨inner, hinner, hother, heq⟩ hdepth hmarked =>
      hclear hdepth.2 ⟨inner, hinner, hother, heq ▸ hmarked⟩ }
  obtain ⟨shapes, hshapes, hcount, hwithin⟩ := exists_expansion_eq_fields hrecord
  obtain ⟨shapes', hshapes', hcount', hwithin'⟩ := exists_expansion_eq_fields hrecord'
  rw [hshapes, hshapes', Shape.bytes, Shape.bytes, ← List.append_nil (FieldShape.listBytes shapes),
    ← List.append_nil (FieldShape.listBytes shapes')] at h
  obtain ⟨hlength, hbytes⟩ := countBytes_append_inj hcount hcount' h
  rw [hshapes, hshapes',
    (FieldShape.listBytes_append_inj hapart hwithin hwithin' hlength hbytes).1]

end TwoRecords

/-- The bytes that are hashed for two records are the same if and only if their expansions are,
unless one of the records has references inside and the other a nested record whose number of fields
ends in the byte of a reference. -/
theorem Fingerprint.shapeBytes_eq_iff {n' : Nat} {catalog : Catalog n} {catalog' : Catalog n'}
    {record : RecordId n} {record' : RecordId n'} (hfamily : n ≤ 2 ^ 32) (hfamily' : n' ≤ 2 ^ 32)
    (hrecord : catalog.WellShaped record) (hrecord' : catalog'.WellShaped record')
    (hclear : catalog.ReachesCycle record → ¬ catalog'.NestsMarked record')
    (hclear' : catalog'.ReachesCycle record' → ¬ catalog.NestsMarked record) :
    shapeBytes catalog record = shapeBytes catalog' record' ↔
      catalog.expansion [] record = catalog'.expansion [] record' := by
  constructor
  · exact Catalog.expansion_eq_of_shapeBytes_eq hrecord hrecord' (fun _ => hfamily)
      (fun _ => hfamily') hclear hclear'
  · intro h
    rw [shapeBytes_eq, shapeBytes_eq, h]

/-! ## Samples -/

/-- Whether all records of a family are well-shaped can be checked record by record. -/
theorem Catalog.wellShaped_of_forall {catalog : Catalog n}
    (hwire : ∀ inner, ∀ field ∈ (catalog inner).fields,
      (field.wire (catalog inner).name).isOk = true)
    (hcount : ∀ inner, (catalog inner).fields.length < 2 ^ 32) (record : RecordId n) :
    catalog.WellShaped record where
  wire inner _ field hfield := by
    have hok := hwire inner field hfield
    cases houtcome : field.wire (catalog inner).name with
    | error error =>
      rw [houtcome] at hok
      cases hok
    | ok wire => exact ⟨wire, rfl⟩
  count_lt inner _ := hcount inner

namespace Sample

/-- A link nests itself, and so does the link in a hook. -/
def linkCatalog : Catalog 2
  | 0 => { name := "Link", fields := [⟨"tag", .int8, .none⟩, ⟨"next", .nested 0, .none⟩] }
  | 1 => { name := "Hook", fields := [⟨"tag", .int8, .none⟩, ⟨"next", .nested 0, .none⟩] }

/-- A link inside a hook is written out once more, so the two have different bytes. -/
theorem link_shapeBytes_ne :
    linkCatalog.WellShaped 0 ∧ linkCatalog.WellShaped 1 ∧
      shapeBytes linkCatalog 0 ≠ shapeBytes linkCatalog 1 := by
  have hshaped (record : RecordId 2) : linkCatalog.WellShaped record :=
    Catalog.wellShaped_of_forall (by decide) (by decide) record
  have hclear (record : RecordId 2) : ¬ linkCatalog.NestsMarked record := by
    rintro ⟨inner, -, -, hmarked⟩
    revert inner
    decide
  refine ⟨hshaped 0, hshaped 1, fun h => ?_⟩
  have hexpansion := (shapeBytes_eq_iff (by decide) (by decide) (hshaped 0) (hshaped 1)
    (fun _ => hclear 1) (fun _ => hclear 0)).1 h
  rw [Catalog.expansion_of_notMem (by decide), Catalog.expansion_of_notMem (by decide)]
    at hexpansion
  have hnext : linkCatalog.expansion [0] 0 = linkCatalog.expansion [1] 0 := by
    simpa [linkCatalog, FieldDef.shape] using hexpansion
  rw [Catalog.expansion_of_mem (by decide), Catalog.expansion_of_notMem (by decide)] at hnext
  cases hnext

/-- The first kind of record repeats itself and then nests 255 numbers; the third nests 255 fields,
of which the second repeats the outer record. -/
def collidingCatalog : Catalog 4
  | 0 => { name := "Tight", fields := [⟨"self", .nested 0, .none⟩, ⟨"rest", .nested 1, .none⟩] }
  | 1 => { name := "Numbers", fields := List.replicate 255 ⟨"x", .int8, .none⟩ }
  | 2 => { name := "Loose", fields := [⟨"rest", .nested 3, .none⟩, ⟨"x", .int8, .none⟩] }
  | 3 => {
      name := "Mixed"
      fields := ⟨"x", .int8, .none⟩ :: ⟨"outer", .nested 2, .none⟩ ::
        List.replicate 253 ⟨"x", .int8, .none⟩ }

/-- The number of 255 fields begins like the reference, and all that follows fits both readings. -/
theorem shapeBytes_collide :
    collidingCatalog.WellShaped 0 ∧ collidingCatalog.WellShaped 2 ∧
      shapeBytes collidingCatalog 0 = shapeBytes collidingCatalog 2 ∧
      collidingCatalog.expansion [] 0 ≠ collidingCatalog.expansion [] 2 := by
  have hshaped (record : RecordId 4) : collidingCatalog.WellShaped record :=
    Catalog.wellShaped_of_forall (by decide +kernel) (by decide +kernel) record
  refine ⟨hshaped 0, hshaped 2, by decide +kernel, fun h => ?_⟩
  rw [Catalog.expansion_of_notMem (by decide), Catalog.expansion_of_notMem (by decide)] at h
  have hfirst : collidingCatalog.expansion [0] 0 = collidingCatalog.expansion [2] 3 := by
    simp only [Shape.fields.injEq] at h
    exact (FieldShape.nested.inj (List.cons.inj h).1).1
  rw [Catalog.expansion_of_mem (by decide), Catalog.expansion_of_notMem (by decide)] at hfirst
  cases hfirst

end Sample

end RecordCodec
