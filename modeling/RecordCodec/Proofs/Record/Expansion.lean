import RecordCodec.Record.Fingerprint
import RecordCodec.Proofs.Record.Nesting

/-!
# Expansions

The expansion of a record is the tree of its fields with nested records in place, where a record
inside itself is only a reference to the depth of the outer one.  It is what the fingerprint is
about: the bytes that are hashed are those of the expansion, written from left to right.  The search
of the path gives the depth, and the path never holds a record twice.
-/

namespace RecordCodec

variable {n : Nat}

/-! ## Shapes -/

mutual

/-- The fields of a record in order, or the number of records around the one that it repeats. -/
inductive Shape where
  | fields (shapes : List FieldShape)
  | enclosing (depth : Nat)

inductive FieldShape where
  | leaf (kind : FieldKind 0) (override : WidthOverride)
  | nested (record : Shape) (override : WidthOverride)

end

/-- The shape of a field, where `expand` gives the shapes of nested records. -/
def FieldDef.shape (expand : RecordId n → Shape) (field : FieldDef n) : FieldShape :=
  match field.kind with
  | .int8 => .leaf .int8 field.override
  | .int16 => .leaf .int16 field.override
  | .int32 => .leaf .int32 field.override
  | .int64 => .leaf .int64 field.override
  | .float32 => .leaf .float32 field.override
  | .float64 => .leaf .float64 field.override
  | .char16 => .leaf .char16 field.override
  | .bool => .leaf .bool field.override
  | .enum variants => .leaf (.enum variants) field.override
  | .text => .leaf .text field.override
  | .bytes => .leaf .bytes field.override
  | .nested record => .nested (expand record) field.override

/-- There are fewer records outside the path when a new one joins it. -/
theorem card_outside_lt {path : List (RecordId n)} {record : RecordId n} (hnew : record ∉ path) :
    (Finset.univ.filter (· ∉ path ++ [record])).card < (Finset.univ.filter (· ∉ path)).card := by
  refine Finset.card_lt_card
    (Finset.ssubset_iff_subset_ne.2 ⟨fun other hother => ?_, fun heq => ?_⟩)
  · rw [Finset.mem_filter] at hother ⊢
    exact ⟨hother.1, fun hmem => hother.2 (List.mem_append_left _ hmem)⟩
  · have hmem : record ∈ Finset.univ.filter (· ∉ path) :=
      Finset.mem_filter.2 ⟨Finset.mem_univ record, hnew⟩
    rw [← heq] at hmem
    exact (Finset.mem_filter.1 hmem).2 (List.mem_append_right _ (List.mem_singleton_self record))

/-- The shape of `record` inside the records on the path, outermost first. -/
def Catalog.expansion (catalog : Catalog n) (path : List (RecordId n)) (record : RecordId n) :
    Shape :=
  if record ∈ path then
    .enclosing (path.idxOf record)
  else
    .fields ((catalog record).fields.map
      (FieldDef.shape fun target => catalog.expansion (path ++ [record]) target))
termination_by (Finset.univ.filter (· ∉ path)).card
decreasing_by exact card_outside_lt ‹_›

namespace Catalog

variable {catalog : Catalog n} {path : List (RecordId n)} {record : RecordId n}

theorem expansion_of_mem (hmem : record ∈ path) :
    catalog.expansion path record = .enclosing (path.idxOf record) := by
  rw [expansion, if_pos hmem]

theorem expansion_of_notMem (hnew : record ∉ path) :
    catalog.expansion path record = .fields ((catalog record).fields.map
      (FieldDef.shape fun target => catalog.expansion (path ++ [record]) target)) := by
  rw [expansion, if_neg hnew]

end Catalog

/-! ## The bytes of a shape -/

open Fingerprint

mutual

def Shape.bytes : Shape → List UInt8
  | .fields shapes => countBytes shapes.length ++ FieldShape.listBytes shapes
  | .enclosing depth => backReference :: countBytes depth

def FieldShape.bytes : FieldShape → List UInt8
  | .leaf kind override => kindTag kind ++ [overrideTag override]
  | .nested record override => 11 :: (record.bytes ++ [overrideTag override])

def FieldShape.listBytes : List FieldShape → List UInt8
  | [] => []
  | shape :: shapes => shape.bytes ++ FieldShape.listBytes shapes

end

/-! ## Writing -/

namespace ShapeTrail

variable {trail : ShapeTrail n}

theorem emit_nil (trail : ShapeTrail n) : trail.emit [] = trail := by
  simp [emit]

theorem emit_emit (first second : List UInt8) (trail : ShapeTrail n) :
    (trail.emit first).emit second = trail.emit (first ++ second) := by
  rw [emit, emit, emit, mk.injEq]
  exact ⟨rfl, Array.toList_inj.1 (by simp)⟩

theorem leave_emit_enter (record : RecordId n) (bytes : List UInt8) (trail : ShapeTrail n) :
    ((trail.enter record).emit bytes).leave = trail.emit bytes := by
  simp [emit, enter, leave]

theorem written_emit_empty (bytes : List UInt8) :
    ((empty : ShapeTrail n).emit bytes).written.toList = bytes := by
  simp [emit, empty]

end ShapeTrail

namespace Fingerprint

/-- Started on the path, the writer puts out these bytes and comes back to the path. -/
def Writes (path : List (RecordId n)) (bytes : List UInt8)
    (writer : StateT (ShapeTrail n) Option Unit) : Prop :=
  ∀ trail : ShapeTrail n, trail.path = path → writer.run trail = some ((), trail.emit bytes)

namespace Writes

variable {path : List (RecordId n)}

theorem nil : Writes path [] (pure ()) := by
  intro trail _
  rw [ShapeTrail.emit_nil]
  rfl

theorem emit (bytes : List UInt8) : Writes path bytes (modify (·.emit bytes)) :=
  fun _ _ => rfl

theorem append {first second : List UInt8} {writer next : StateT (ShapeTrail n) Option Unit}
    (hfirst : Writes path first writer) (hsecond : Writes path second next) :
    Writes path (first ++ second) (do writer; next) := by
  intro trail htrail
  change (writer.run trail).bind _ = _
  rw [hfirst trail htrail, ← ShapeTrail.emit_emit]
  exact hsecond (trail.emit first) htrail

end Writes

variable {path : List (RecordId n)} {nested : RecordId n → StateT (ShapeTrail n) Option Unit}
variable {expand : RecordId n → Shape} {catalog : Catalog n} {record : RecordId n} {depth : Nat}

theorem writes_writeField {field : FieldDef n}
    (hnested : ∀ target, field.kind = .nested target →
      Writes path (expand target).bytes (nested target)) :
    Writes path (field.shape expand).bytes (writeField nested field) := by
  rcases field with ⟨name, kind, override⟩
  cases kind with
  | nested target =>
    exact (Writes.emit [11]).append ((hnested target rfl).append (.emit [overrideTag override]))
  | _ => exact (Writes.emit (kindTag _)).append (.emit [overrideTag override])

theorem writes_forM {fields : List (FieldDef n)}
    (hfields : ∀ field ∈ fields, Writes path (field.shape expand).bytes (writeField nested field)) :
    Writes path (FieldShape.listBytes (fields.map (FieldDef.shape expand)))
      (fields.forM (writeField nested)) := by
  induction fields with
  | nil => exact .nil
  | cons field fields ih =>
    exact (hfields field List.mem_cons_self).append
      (ih fun other hother => hfields other (List.mem_cons_of_mem _ hother))

theorem idxOf?_eq_some_of_mem (hmem : record ∈ path) :
    path.idxOf? record = some (path.idxOf record) := by
  cases hfind : path.idxOf? record with
  | none => exact absurd hmem (List.idxOf?_eq_none_iff.1 hfind)
  | some place => rw [List.idxOf_eq_getD_idxOf?, hfind, Option.getD_some]

theorem writes_writeRecord_of_mem (hmem : record ∈ path) :
    Writes path (backReference :: countBytes (path.idxOf record))
      (writeRecord catalog (depth + 1) record) := by
  rintro trail rfl
  simp only [writeRecord, StateT.run_bind, StateT.run_get, pure_bind, idxOf?_eq_some_of_mem hmem]
  rfl

theorem writes_writeRecord_of_new {shapes : List FieldShape} (hnew : record ∉ path)
    (hcount : shapes.length = (catalog record).fields.length)
    (hfields : Writes (path ++ [record]) (FieldShape.listBytes shapes)
      ((catalog record).fields.forM (writeField (writeRecord catalog depth)))) :
    Writes path (Shape.fields shapes).bytes (writeRecord catalog (depth + 1) record) := by
  rintro trail rfl
  have hinside : Writes (trail.path ++ [record]) (Shape.fields shapes).bytes (do
      modify (·.emit (countBytes (catalog record).fields.length))
      (catalog record).fields.forM (writeField (writeRecord catalog depth))) := by
    rw [Shape.bytes, hcount]
    exact (Writes.emit _).append hfields
  rw [writeRecord, StateT.run_bind, StateT.run_get, pure_bind]
  simp only [List.idxOf?_eq_none_iff.2 hnew]
  rw [← ShapeTrail.leave_emit_enter record]
  change ((modify (·.emit (countBytes (catalog record).fields.length)) >>= fun _ =>
    (catalog record).fields.forM (writeField (writeRecord catalog depth)) >>= fun _ =>
      modify (·.leave) : StateT (ShapeTrail n) Option Unit) (trail.enter record)) = _
  rw [← bind_assoc]
  change (StateT.run (modify (·.emit (countBytes (catalog record).fields.length)) >>= fun _ =>
    (catalog record).fields.forM (writeField (writeRecord catalog depth)))
      (trail.enter record)).bind _ = _
  rw [hinside (trail.enter record) rfl]
  rfl

/-- However deep the path is, the shape of a record that it leads to is written within the depth
that is left. -/
theorem writes_writeRecord (hpath : catalog.LeadsTo path record)
    (hdepth : n + 1 ≤ depth + path.length) :
    Writes path (catalog.expansion path record).bytes (writeRecord catalog depth record) := by
  induction depth generalizing path record with
  | zero =>
    have hlength := hpath.length_le
    omega
  | succ depth ih =>
    by_cases hmem : record ∈ path
    · rw [Catalog.expansion_of_mem hmem, Shape.bytes]
      exact writes_writeRecord_of_mem hmem
    · rw [Catalog.expansion_of_notMem hmem]
      apply writes_writeRecord_of_new hmem (List.length_map _)
      apply writes_forM
      intro field hfield
      apply writes_writeField
      intro target hkind
      refine ih (hpath.enter hmem (Catalog.nests_iff.2 ⟨field, hfield, hkind⟩)) ?_
      rw [List.length_append, List.length_singleton]
      omega

/-- The bytes that are hashed are those of the expansion, for cyclic records as well. -/
theorem shapeBytes_eq (catalog : Catalog n) (record : RecordId n) :
    shapeBytes catalog record = (catalog.expansion [] record).bytes := by
  have hrun : writeRecord catalog (n + 1) record ShapeTrail.empty =
      some ((), ShapeTrail.empty.emit (catalog.expansion [] record).bytes) :=
    writes_writeRecord (catalog.leadsTo_nil record) (Nat.le_refl (n + 1)) ShapeTrail.empty rfl
  rw [shapeBytes, hrun]
  exact ShapeTrail.written_emit_empty _

end Fingerprint

end RecordCodec
