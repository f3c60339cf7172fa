import RecordCodec.Proofs.Record.Expansion

/-!
# The walk of a fingerprint

While a shape is written there are things still to be done: bytes to be put out, records to be
visited, and records to be left that were entered.  Taken one at a time, from the one that comes
next, they lead through every moment of the walk.  The path is balanced at each of them: it holds
the records that were entered and are still to be left, none of them twice.  So a visit gives the
path back as it was, a reference tells where the record that it repeats stands among those around
it, and the walk ends.
-/

namespace RecordCodec

open Fingerprint

variable {n : Nat}

/-! ## Moments of a walk -/

/-- Something still to be done. -/
inductive ShapeTask (n : Nat) where
  | emit (bytes : List UInt8)
  | visit (record : RecordId n)
  /-- Leaves the innermost record, whichever it is; by rights it is this one. -/
  | leave (record : RecordId n)
  deriving DecidableEq

def FieldDef.tasks (field : FieldDef n) : List (ShapeTask n) :=
  .emit (kindTag field.kind) ::
    (field.kind.nested?.toList.map .visit ++ [.emit [overrideTag field.override]])

/-- What is to be done for a record once it was entered. -/
def Catalog.tasks (catalog : Catalog n) (record : RecordId n) : List (ShapeTask n) :=
  .emit (countBytes (catalog record).fields.length) ::
    ((catalog record).fields.flatMap FieldDef.tasks ++ [.leave record])

/-- What is still to be done, and what has become of the path and the bytes. -/
structure ShapeWalk (n : Nat) where
  tasks : List (ShapeTask n)
  trail : ShapeTrail n

namespace ShapeWalk

def start (record : RecordId n) : ShapeWalk n where
  tasks := [.visit record]
  trail := .empty

/-- The next moment, unless nothing is left to be done. -/
def step (catalog : Catalog n) (walk : ShapeWalk n) : Option (ShapeWalk n) :=
  match walk.tasks with
  | [] => none
  | .emit bytes :: tasks => some { tasks, trail := walk.trail.emit bytes }
  | .visit record :: tasks =>
    match walk.trail.path.idxOf? record with
    | some enclosing =>
      some { tasks, trail := walk.trail.emit (backReference :: countBytes enclosing) }
    | none => some { tasks := catalog.tasks record ++ tasks, trail := walk.trail.enter record }
  | .leave _ :: tasks => some { tasks, trail := walk.trail.leave }

def Runs (catalog : Catalog n) : ShapeWalk n → ShapeWalk n → Prop :=
  Relation.ReflTransGen fun walk next => walk.step catalog = some next

end ShapeWalk

/-! ## The writer walks -/

namespace Fingerprint

open ShapeWalk

variable {catalog : Catalog n} {nested : RecordId n → StateT (ShapeTrail n) Option Unit}

/-- What the writer does when it succeeds is done by the walk, whatever is to be done after. -/
def Performs (catalog : Catalog n) (tasks : List (ShapeTask n))
    (writer : StateT (ShapeTrail n) Option Unit) : Prop :=
  ∀ (trail after : ShapeTrail n) (rest : List (ShapeTask n)), writer.run trail = some ((), after) →
    Runs catalog ⟨tasks ++ rest, trail⟩ ⟨rest, after⟩

namespace Performs

theorem nil : Performs catalog [] (pure ()) := by
  intro trail after rest h
  cases h
  exact .refl

theorem emit (bytes : List UInt8) : Performs catalog [.emit bytes] (modify (·.emit bytes)) := by
  intro trail after rest h
  cases h
  exact .single rfl

theorem leave (record : RecordId n) : Performs catalog [.leave record] (modify (·.leave)) := by
  intro trail after rest h
  cases h
  exact .single rfl

theorem append {first second : List (ShapeTask n)} {writer next : StateT (ShapeTrail n) Option Unit}
    (hfirst : Performs catalog first writer) (hsecond : Performs catalog second next) :
    Performs catalog (first ++ second) (do writer; next) := by
  intro trail after rest h
  change (writer.run trail).bind (fun result => next.run result.2) = _ at h
  obtain ⟨⟨_, reached⟩, hwriter, hnext⟩ := Option.bind_eq_some_iff.1 h
  rw [List.append_assoc]
  exact (hfirst trail reached (second ++ rest) hwriter).trans (hsecond reached after rest hnext)

end Performs

theorem performs_writeField (hnested : ∀ record, Performs catalog [.visit record] (nested record))
    (field : FieldDef n) : Performs catalog field.tasks (writeField nested field) := by
  rcases field with ⟨name, kind, override⟩
  cases kind with
  | nested record =>
    exact (Performs.emit [11]).append ((hnested record).append (.emit [overrideTag override]))
  | _ => exact (Performs.emit (kindTag _)).append (.emit [overrideTag override])

theorem performs_forM (hnested : ∀ record, Performs catalog [.visit record] (nested record))
    (fields : List (FieldDef n)) :
    Performs catalog (fields.flatMap FieldDef.tasks) (fields.forM (writeField nested)) := by
  induction fields with
  | nil => exact .nil
  | cons field fields ih => exact (performs_writeField hnested field).append ih

/-- A call that returns has made a visit. -/
theorem performs_writeRecord (catalog : Catalog n) (depth : Nat) (record : RecordId n) :
    Performs catalog [.visit record] (writeRecord catalog depth record) := by
  -- A call for a nested record may go one level less deep.
  induction depth generalizing record with
  | zero =>
    intro trail after rest h
    cases h
  | succ depth ih =>
    intro trail after rest h
    rw [writeRecord, StateT.run_bind, StateT.run_get, pure_bind] at h
    cases hplace : trail.path.idxOf? record with
    | some enclosing =>
      simp only [hplace] at h
      cases h
      refine .single ?_
      simp only [step, List.singleton_append, hplace]
    | none =>
      simp only [hplace] at h
      have hinside : Performs catalog (catalog.tasks record) (do
          modify (·.emit (countBytes (catalog record).fields.length))
          (catalog record).fields.forM (writeField (writeRecord catalog depth))
          modify (·.leave)) :=
        (Performs.emit _).append ((performs_forM ih _).append (.leave record))
      refine .head ?_ (hinside (trail.enter record) after rest h)
      simp only [step, List.singleton_append, hplace]

end Fingerprint

/-! ## What every moment keeps -/

namespace ShapeTask

def openRecords : List (ShapeTask n) → List (RecordId n)
  | [] => []
  | .leave record :: tasks => openRecords tasks ++ [record]
  | .emit _ :: tasks => openRecords tasks
  | .visit _ :: tasks => openRecords tasks

/-- What is still to be visited or left lies inside the records that are to be left later, and all
of it inside `root`. -/
def InOrder (catalog : Catalog n) (root : RecordId n) : List (ShapeTask n) → Prop
  | [] => True
  | .emit _ :: tasks => InOrder catalog root tasks
  | .visit record :: tasks =>
    catalog.LeadsTo (openRecords tasks) record ∧ catalog.Reaches root record ∧
      InOrder catalog root tasks
  | .leave record :: tasks =>
    (openRecords tasks ++ [record]).Nodup ∧ catalog.Reaches root record ∧
      InOrder catalog root tasks

variable {catalog : Catalog n} {root record : RecordId n} {tasks : List (ShapeTask n)}

theorem InOrder.nodup (h : InOrder catalog root tasks) : (openRecords tasks).Nodup := by
  induction tasks with
  | nil => exact List.nodup_nil
  | cons task tasks ih =>
    cases task with
    | emit bytes => exact ih h
    | visit record => exact ih h.2.2
    | leave record => exact h.1

theorem InOrder.reaches (h : InOrder catalog root tasks) :
    ∀ record ∈ openRecords tasks, catalog.Reaches root record := by
  induction tasks with
  | nil => nofun
  | cons task tasks ih =>
    cases task with
    | emit bytes => exact ih h
    | visit record => exact ih h.2.2
    | leave record =>
      intro other hother
      rcases List.mem_append.1 hother with hearlier | hlast
      · exact ih h.2.2 other hearlier
      · obtain rfl := List.mem_singleton.1 hlast
        exact h.2.1

/-- The tasks of fields leave nothing, and they visit what the fields nest. -/
theorem InOrder.fields {fields : List (FieldDef n)} (h : InOrder catalog root tasks)
    (hnested : ∀ field ∈ fields, ∀ target, field.kind = .nested target →
      catalog.LeadsTo (openRecords tasks) target ∧ catalog.Reaches root target) :
    InOrder catalog root (fields.flatMap FieldDef.tasks ++ tasks) ∧
      openRecords (fields.flatMap FieldDef.tasks ++ tasks) = openRecords tasks := by
  induction fields with
  | nil => exact ⟨h, rfl⟩
  | cons field fields ih =>
    obtain ⟨horder, hopen⟩ := ih fun other hother => hnested other (List.mem_cons_of_mem _ hother)
    have hfield := hnested field List.mem_cons_self
    rcases field with ⟨name, kind, override⟩
    cases kind with
    | nested target =>
      obtain ⟨hleads, hreaches⟩ := hfield target rfl
      exact ⟨⟨hopen ▸ hleads, hreaches, horder⟩, hopen⟩
    | _ => exact ⟨horder, hopen⟩

/-- A record that is entered is left after its fields. -/
theorem InOrder.enter (h : InOrder catalog root tasks)
    (hleads : catalog.LeadsTo (openRecords tasks) record) (hreaches : catalog.Reaches root record)
    (hnew : record ∉ openRecords tasks) :
    InOrder catalog root (catalog.tasks record ++ tasks) ∧
      openRecords (catalog.tasks record ++ tasks) = openRecords tasks ++ [record] := by
  have hnodup : (openRecords tasks ++ [record]).Nodup :=
    hleads.nodup.append (List.nodup_singleton record) (List.disjoint_singleton.2 hnew)
  have hleave : InOrder catalog root (.leave record :: tasks) := ⟨hnodup, hreaches, h⟩
  have hfields := hleave.fields fun field hfield target hkind =>
    have hnests : catalog.Nests record target := Catalog.nests_iff.2 ⟨field, hfield, hkind⟩
    ⟨hleads.enter hnew hnests, hreaches.tail hnests⟩
  have happend : catalog.tasks record ++ tasks =
      .emit (countBytes (catalog record).fields.length) ::
        ((catalog record).fields.flatMap FieldDef.tasks ++ .leave record :: tasks) := by
    rw [Catalog.tasks, List.cons_append, List.append_assoc, List.singleton_append]
  rw [happend]
  exact hfields

end ShapeTask

namespace ShapeWalk

open ShapeTask

variable {catalog : Catalog n} {root record : RecordId n} {walk next : ShapeWalk n}

/-- The path holds what is still to be left. -/
structure Orderly (catalog : Catalog n) (root : RecordId n) (walk : ShapeWalk n) : Prop where
  path_eq : walk.trail.path = openRecords walk.tasks
  inOrder : InOrder catalog root walk.tasks

theorem orderly_start (catalog : Catalog n) (root : RecordId n) :
    (start root).Orderly catalog root where
  path_eq := rfl
  inOrder := ⟨catalog.leadsTo_nil root, .refl, trivial⟩

theorem Orderly.step (h : walk.Orderly catalog root) (hstep : walk.step catalog = some next) :
    next.Orderly catalog root := by
  obtain ⟨hpath, horder⟩ := h
  rcases walk with ⟨tasks, trail⟩
  cases tasks with
  | nil => cases hstep
  | cons task tasks =>
    cases task with
    | emit bytes =>
      cases hstep
      exact ⟨hpath, horder⟩
    | visit record =>
      obtain ⟨hleads, hreaches, horder⟩ := horder
      simp only [ShapeWalk.step] at hstep
      cases hplace : trail.path.idxOf? record with
      | some enclosing =>
        rw [hplace] at hstep
        cases hstep
        exact ⟨hpath, horder⟩
      | none =>
        rw [hplace] at hstep
        cases hstep
        -- The path is what is still to be left, so what is not on it can be entered.
        have hnew : record ∉ openRecords tasks := by
          intro hmem
          have hpath' : trail.path = openRecords tasks := hpath
          rw [← hpath'] at hmem
          exact List.idxOf?_eq_none_iff.1 hplace hmem
        obtain ⟨horder', hopen⟩ := horder.enter hleads hreaches hnew
        refine ⟨?_, horder'⟩
        rw [hopen]
        exact congrArg (· ++ [record]) hpath
    | leave record =>
      cases hstep
      refine ⟨?_, horder.2.2⟩
      have hpath' : trail.path = openRecords tasks ++ [record] := hpath
      change trail.path.dropLast = openRecords tasks
      rw [hpath', List.dropLast_concat]

theorem Orderly.runs (h : walk.Orderly catalog root) (hruns : Runs catalog walk next) :
    next.Orderly catalog root := by
  induction hruns with
  | refl => exact h
  | tail _ hstep ih => exact ih.step hstep

theorem Orderly.nodup (h : walk.Orderly catalog root) : walk.trail.path.Nodup :=
  h.path_eq ▸ h.inOrder.nodup

theorem Orderly.reaches (h : walk.Orderly catalog root) :
    ∀ outer ∈ walk.trail.path, catalog.Reaches root outer :=
  h.path_eq ▸ h.inOrder.reaches

/-- A path without repetitions is no longer than there are records for it. -/
theorem Orderly.length_le (h : walk.Orderly catalog root) :
    walk.trail.path.length ≤ catalog.height root := by
  calc
    walk.trail.path.length = walk.trail.path.toFinset.card :=
      (List.toFinset_card_of_nodup h.nodup).symm
    _ = (walk.trail.path.toFinset : Set (RecordId n)).ncard := (Set.ncard_coe_finset _).symm
    _ ≤ catalog.height root :=
      Set.ncard_le_ncard (fun outer houter => h.reaches outer (List.mem_toFinset.1 houter))
        (Set.toFinite _)

/-- A call that is made at some moment returns, and it writes what the path makes of the record. -/
theorem Orderly.run_writeRecord {rest : List (ShapeTask n)} (h : walk.Orderly catalog root)
    (htasks : walk.tasks = .visit record :: rest) {depth : Nat}
    (hdepth : n < depth + walk.trail.path.length) :
    (writeRecord catalog depth record).run walk.trail =
      some ((), walk.trail.emit (catalog.expansion walk.trail.path record).bytes) := by
  have hleads : catalog.LeadsTo walk.trail.path record := by
    have horder := h.inOrder
    have hpath := h.path_eq
    rw [htasks] at horder hpath
    rw [hpath]
    exact horder.1
  exact writes_writeRecord hleads hdepth walk.trail rfl

/-- Nothing comes after the last moment, so no two walks from one moment part. -/
theorem Runs.to_last {last : ShapeTrail n} (hlast : Runs catalog walk ⟨[], last⟩)
    (h : Runs catalog walk next) : Runs catalog next ⟨[], last⟩ := by
  have hunique : Relator.RightUnique fun walk next : ShapeWalk n => walk.step catalog = some next :=
    fun _ _ _ hnext hother => Option.some.inj (hnext.symm.trans hother)
  rcases Relation.ReflTransGen.total_of_right_unique hunique h hlast with hrest | hback
  · exact hrest
  · rcases Relation.ReflTransGen.cases_head hback with rfl | ⟨_, hstep, -⟩
    · exact .refl
    · cases hstep

/-! ## Balance -/

/-- The path holds the records that were entered and are still to be left, each of them once and all
of them inside `root`, so there are not more than lie inside it.  A visit that comes next returns
with the path as it was.  This is what a call of the writer does, as long as it may go deeper than
there are records beside those on the path.  If the record is on the path, what it writes is its
place there. -/
structure Balanced (catalog : Catalog n) (root : RecordId n) (moment : ShapeWalk n) : Prop where
  path_eq : moment.trail.path = openRecords moment.tasks
  nodup : moment.trail.path.Nodup
  reaches : ∀ outer ∈ moment.trail.path, catalog.Reaches root outer
  length_le : moment.trail.path.length ≤ catalog.height root
  returns : ∀ inner rest, moment.tasks = .visit inner :: rest →
    ∃ after : ShapeTrail n, after.path = moment.trail.path ∧ Runs catalog moment ⟨rest, after⟩ ∧
      (∀ depth, n < depth + moment.trail.path.length →
        (writeRecord catalog depth inner).run moment.trail = some ((), after)) ∧
      ∀ place, moment.trail.path[place]? = some inner →
        after = moment.trail.emit (backReference :: countBytes place) ∧
          (place < 2 ^ 32 → BigEndian.decode (countBytes place).reverse = place)

theorem Orderly.balanced (h : walk.Orderly catalog root) : walk.Balanced catalog root where
  path_eq := h.path_eq
  nodup := h.nodup
  reaches := h.reaches
  length_le := h.length_le
  returns := by
    intro inner rest htasks
    refine ⟨walk.trail.emit (catalog.expansion walk.trail.path inner).bytes, rfl, ?_,
      fun depth => h.run_writeRecord htasks, fun place hplace => ⟨?_, ?_⟩⟩
    · have hrun := h.run_writeRecord htasks (Nat.lt_add_right walk.trail.path.length n.lt_succ_self)
      rcases walk with ⟨tasks, trail⟩
      obtain rfl : tasks = .visit inner :: rest := htasks
      exact performs_writeRecord catalog (n + 1) inner trail _ rest hrun
    · obtain ⟨hlt, hinner⟩ := List.getElem?_eq_some_iff.1 hplace
      have hindex : walk.trail.path.idxOf inner = place := by
        rw [← hinner]
        exact h.nodup.idxOf_getElem place hlt
      rw [Catalog.expansion_of_mem (List.mem_of_getElem? hplace), hindex, Shape.bytes]
    · intro hlt
      rw [countBytes, List.reverse_reverse]
      exact BigEndian.decode_encode_of_lt hlt

/-- The walk from any record ends, whatever cycles there are, and it is balanced at every moment.
What it ends with is what the writer gives however deep it may go, and what is hashed. -/
theorem terminates_balanced (catalog : Catalog n) (record : RecordId n) :
    ∃ last : ShapeTrail n, last.path = [] ∧ last.written.toList = shapeBytes catalog record ∧
      (∀ depth, n < depth →
        (writeRecord catalog depth record).run ShapeTrail.empty = some ((), last)) ∧
      ∀ moment, Runs catalog (start record) moment →
        Runs catalog moment ⟨[], last⟩ ∧ moment.Balanced catalog record := by
  have hstart := orderly_start catalog record
  obtain ⟨last, hpath, hlast, hrun, -⟩ := hstart.balanced.returns record [] rfl
  refine ⟨last, hpath, ?_, hrun, fun moment hmoment => ?_⟩
  · have hwhole : writeRecord catalog (n + 1) record ShapeTrail.empty = some ((), last) :=
      hrun (n + 1) n.lt_succ_self
    rw [shapeBytes, hwhole]
  · exact ⟨hlast.to_last hmoment, (hstart.runs hmoment).balanced⟩

end ShapeWalk

end RecordCodec
