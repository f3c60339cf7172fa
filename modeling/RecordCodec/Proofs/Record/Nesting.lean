import RecordCodec.Record.Definition
import Mathlib.Logic.Relation
import Mathlib.Data.Fintype.Card
import Mathlib.Data.Set.Card

/-!
# Reaching a cycle

A record reaches a cycle if, going from record to nested record, one can come to a record that lies
inside itself.  The search for a cycle is exact: it always ends, and it meets a cycle if and only if
there is one to be reached, whatever was searched for before.  Below a record that reaches no cycle
there are ever fewer records to be reached.
-/

namespace RecordCodec

/-! ## Small families

The records of samples are given by literals.  These instances are constants, where those that would
be found otherwise are terms that each module names anew. -/

instance (priority := 2000) neZero_two : NeZero 2 :=
  ⟨by decide⟩

instance (priority := 2000) neZero_four : NeZero 4 :=
  ⟨by decide⟩

variable {n : Nat} {catalog : Catalog n}

/-! ## Nested records -/

theorem FieldKind.nested?_eq_some_iff {kind : FieldKind n} {target : RecordId n} :
    kind.nested? = some target ↔ kind = .nested target := by
  cases kind <;> simp [nested?]

namespace Catalog

variable {record outer inner : RecordId n}

def Nests (catalog : Catalog n) (outer inner : RecordId n) : Prop :=
  inner ∈ (catalog outer).nested

theorem nests_iff :
    catalog.Nests outer inner ↔ ∃ field ∈ (catalog outer).fields, field.kind = .nested inner := by
  simp only [Nests, RecordDef.nested, List.mem_filterMap, FieldKind.nested?_eq_some_iff]

instance (catalog : Catalog n) (outer inner : RecordId n) : Decidable (catalog.Nests outer inner) :=
  inferInstanceAs (Decidable (inner ∈ (catalog outer).nested))

/-- `inner` is `outer` itself or lies inside it, however deep. -/
def Reaches (catalog : Catalog n) (outer inner : RecordId n) : Prop :=
  Relation.ReflTransGen catalog.Nests outer inner

/-- `inner` lies inside `outer`, however deep. -/
def Encloses (catalog : Catalog n) (outer inner : RecordId n) : Prop :=
  Relation.TransGen catalog.Nests outer inner

def ReachesCycle (catalog : Catalog n) (record : RecordId n) : Prop :=
  ∃ repeated, catalog.Reaches record repeated ∧ catalog.Encloses repeated repeated

theorem ReachesCycle.of_reaches (hreaches : catalog.Reaches outer inner)
    (h : catalog.ReachesCycle inner) : catalog.ReachesCycle outer := by
  obtain ⟨repeated, hrepeated, hcycle⟩ := h
  exact ⟨repeated, hreaches.trans hrepeated, hcycle⟩

theorem ReachesCycle.of_nests (hnests : catalog.Nests outer inner)
    (h : catalog.ReachesCycle inner) : catalog.ReachesCycle outer :=
  h.of_reaches (.single hnests)

/-- A way to a cycle leads through one of the nested records, also if it starts on the cycle. -/
theorem reachesCycle_iff :
    catalog.ReachesCycle record ↔
      ∃ inner, catalog.Nests record inner ∧ catalog.ReachesCycle inner := by
  constructor
  · rintro ⟨repeated, hrepeated, hcycle⟩
    rcases hrepeated.cases_head with rfl | ⟨inner, hnests, hinner⟩
    · obtain ⟨inner, hnests, hinner⟩ := Relation.TransGen.head'_iff.1 hcycle
      exact ⟨inner, hnests, record, hinner, hcycle⟩
    · exact ⟨inner, hnests, repeated, hinner, hcycle⟩
  · rintro ⟨inner, hnests, hinner⟩
    exact hinner.of_nests hnests

/-- How many records can be reached from `record`, itself among them. -/
noncomputable def height (catalog : Catalog n) (record : RecordId n) : Nat :=
  {inner | catalog.Reaches record inner}.ncard

theorem height_pos (catalog : Catalog n) (record : RecordId n) : 0 < catalog.height record :=
  (Set.ncard_pos).2 ⟨record, Relation.ReflTransGen.refl⟩

theorem height_le (catalog : Catalog n) (record : RecordId n) : catalog.height record ≤ n := by
  calc
    catalog.height record ≤ (Set.univ : Set (RecordId n)).ncard :=
      Set.ncard_le_ncard (Set.subset_univ _)
    _ = n := by rw [Set.ncard_univ, Nat.card_eq_fintype_card, Fintype.card_fin]

/-- From a nested record one does not come back, unless there is a cycle. -/
theorem height_lt_of_nests (hacyclic : ¬ catalog.ReachesCycle outer)
    (hnests : catalog.Nests outer inner) : catalog.height inner < catalog.height outer := by
  refine Set.ncard_lt_ncard ⟨fun other hother => ?_, fun hsubset => ?_⟩ (Set.toFinite _)
  · exact Relation.ReflTransGen.head hnests hother
  · have hback : catalog.Reaches inner outer := hsubset Relation.ReflTransGen.refl
    exact hacyclic ⟨outer, .refl, Relation.TransGen.head'_iff.2 ⟨inner, hnests, hback⟩⟩

/-- What holds of a record whenever it holds of the records nested in it holds of every record that
reaches no cycle. -/
theorem acyclic_induction {motive : RecordId n → Prop}
    (h : ∀ record, ¬ catalog.ReachesCycle record →
      (∀ inner, catalog.Nests record inner → motive inner) → motive record)
    (hacyclic : ¬ catalog.ReachesCycle record) : motive record := by
  induction hheight : catalog.height record using Nat.strongRecOn generalizing record with
  | _ height ih =>
    apply h record hacyclic
    intro inner hnests
    subst hheight
    exact ih _ (height_lt_of_nests hacyclic hnests) (mt (.of_nests hnests) hacyclic) rfl

/-! ## Paths -/

/-- The records on the path, none of them twice, enclose `record`. -/
structure LeadsTo (catalog : Catalog n) (path : List (RecordId n)) (record : RecordId n) :
    Prop where
  nodup : path.Nodup
  encloses : ∀ outer ∈ path, catalog.Encloses outer record

theorem leadsTo_nil (catalog : Catalog n) (record : RecordId n) : catalog.LeadsTo [] record :=
  ⟨List.nodup_nil, nofun⟩

theorem LeadsTo.length_le {path : List (RecordId n)} (h : catalog.LeadsTo path record) :
    path.length ≤ n := by
  calc
    path.length ≤ Fintype.card (RecordId n) := h.nodup.length_le_card
    _ = n := Fintype.card_fin n

theorem LeadsTo.notMem_of_acyclic {path : List (RecordId n)} (h : catalog.LeadsTo path record)
    (hacyclic : ¬ catalog.ReachesCycle record) : record ∉ path :=
  fun hmem => hacyclic ⟨record, .refl, h.encloses record hmem⟩

theorem LeadsTo.enter {path : List (RecordId n)} (h : catalog.LeadsTo path record)
    (hnew : record ∉ path) (hnests : catalog.Nests record inner) :
    catalog.LeadsTo (path ++ [record]) inner where
  nodup := h.nodup.append (List.nodup_singleton record) (List.disjoint_singleton.2 hnew)
  encloses outer houter := by
    rcases List.mem_append.1 houter with hearlier | hlast
    · exact (h.encloses outer hearlier).tail hnests
    · obtain rfl := List.mem_singleton.1 hlast
      exact .single hnests

end Catalog

/-! ## The search -/

namespace CycleWalk

variable {walk : CycleWalk n} {record : RecordId n} {depth : Nat}

/-- The records that the search remembers reach no cycle. -/
def Sound (catalog : Catalog n) (walk : CycleWalk n) : Prop :=
  ∀ record ∈ walk.acyclic, ¬ catalog.ReachesCycle record

theorem sound_empty (catalog : Catalog n) : (empty : CycleWalk n).Sound catalog :=
  nofun

/-- The search ends and finds out whether `cycle` holds.  It remembers nothing wrong, and if it
meets no cycle it leaves the branch as it was. -/
def Finds (catalog : Catalog n) (walk : CycleWalk n) (cycle : Prop)
    (search : StateT (CycleWalk n) Option Bool) : Prop :=
  ∃ found after, search.run walk = some (found, after) ∧ after.Sound catalog ∧
    (found = true ↔ cycle) ∧ (found = false → after.path = walk.path)

theorem visit_of_mem_acyclic (hmem : record ∈ walk.acyclic) :
    (visit catalog (depth + 1) record).run walk = some (false, walk) := by
  rw [visit]
  change StateT.run (if record ∈ walk.acyclic then pure false else _) walk = _
  rw [if_pos hmem]
  rfl

theorem visit_of_mem_path (hnew : record ∉ walk.acyclic) (hmem : record ∈ walk.path) :
    (visit catalog (depth + 1) record).run walk = some (true, walk) := by
  rw [visit]
  change StateT.run (if record ∈ walk.acyclic then _ else
    if record ∈ walk.path then pure true else _) walk = _
  rw [if_neg hnew, if_pos hmem]
  rfl

theorem visit_of_new (hnew : record ∉ walk.acyclic) (hpath : record ∉ walk.path) :
    (visit catalog (depth + 1) record).run walk =
      (((catalog record).nested.anyM (visit catalog depth)).run (walk.enter record)).map
        fun (found, after) => (found, if found then after else after.leave record) := by
  rw [visit]
  change StateT.run (if record ∈ walk.acyclic then _ else
    if record ∈ walk.path then _ else (do
      set (walk.enter record)
      if ← (catalog record).nested.anyM (visit catalog depth) then
        return true
      else
        modify (·.leave record)
        return false)) walk = _
  rw [if_neg hnew, if_neg hpath, Option.map_eq_bind]
  change (((catalog record).nested.anyM (visit catalog depth)).run (walk.enter record)).bind _ = _
  congr 1
  funext result
  rcases result with ⟨found, after⟩
  cases found <;> rfl

/-- Searching several records for a cycle finds out whether one of them reaches one. -/
theorem finds_anyM {search : RecordId n → StateT (CycleWalk n) Option Bool}
    {records : List (RecordId n)} (hsound : walk.Sound catalog)
    (hsearch : ∀ record ∈ records, ∀ walk' : CycleWalk n, walk'.Sound catalog →
      walk'.path = walk.path → walk'.Finds catalog (catalog.ReachesCycle record) (search record)) :
    walk.Finds catalog (∃ record ∈ records, catalog.ReachesCycle record) (records.anyM search) := by
  induction records generalizing walk with
  | nil => exact ⟨false, walk, rfl, hsound, by simp, fun _ => rfl⟩
  | cons record records ih =>
    obtain ⟨found, after, hrun, hafter, hfound, hpath⟩ :=
      hsearch record List.mem_cons_self walk hsound rfl
    have hcons : ((record :: records).anyM search).run walk =
        if found then some (true, after) else (records.anyM search).run after := by
      change ((search record).run walk).bind _ = _
      rw [hrun]
      cases found <;> rfl
    cases found with
    | true =>
      have hcycle : ∃ other ∈ record :: records, catalog.ReachesCycle other :=
        ⟨record, List.mem_cons_self, hfound.1 rfl⟩
      exact ⟨true, after, hcons, hafter, iff_of_true rfl hcycle, nofun⟩
    | false =>
      have hfirst : ¬ catalog.ReachesCycle record := fun h => Bool.noConfusion (hfound.2 h)
      obtain ⟨others, last, hothers, hlast, hiff, hback⟩ := ih hafter fun other hmem walk' h heq =>
        hsearch other (List.mem_cons_of_mem _ hmem) walk' h (heq.trans (hpath rfl))
      refine ⟨others, last, hcons.trans hothers, hlast, ?_, fun h => (hback h).trans (hpath rfl)⟩
      rw [hiff]
      simp [hfirst]

/-- A search below the branch ends, however deep the branch is, and it is exact. -/
theorem finds_visit (hsound : walk.Sound catalog) (hleads : catalog.LeadsTo walk.path record)
    (hdepth : n + 1 ≤ depth + walk.path.length) :
    walk.Finds catalog (catalog.ReachesCycle record) (visit catalog depth record) := by
  induction depth generalizing walk record with
  | zero =>
    have hlength := hleads.length_le
    omega
  | succ depth ih =>
    by_cases hacyclic : record ∈ walk.acyclic
    · exact ⟨false, walk, visit_of_mem_acyclic hacyclic, hsound,
        iff_of_false Bool.false_ne_true (hsound record hacyclic), fun _ => rfl⟩
    by_cases hpath : record ∈ walk.path
    · have hcycle : catalog.ReachesCycle record := ⟨record, .refl, hleads.encloses record hpath⟩
      exact ⟨true, walk, visit_of_mem_path hacyclic hpath, hsound, iff_of_true rfl hcycle, nofun⟩
    have hlength : (walk.enter record).path.length = walk.path.length + 1 := List.length_append
    have hnested : (walk.enter record).Finds catalog
        (∃ inner ∈ (catalog record).nested, catalog.ReachesCycle inner)
        ((catalog record).nested.anyM (visit catalog depth)) := by
      have hentered : (walk.enter record).Sound catalog := hsound
      apply finds_anyM hentered
      intro inner hnests walk' hsound' heq
      have hleads' := hleads.enter hpath hnests
      refine ih hsound' (heq ▸ hleads') ?_
      rw [heq, hlength]
      omega
    obtain ⟨found, after, hrun, hafter, hfound, hback⟩ := hnested
    have hiff : found = true ↔ catalog.ReachesCycle record :=
      hfound.trans Catalog.reachesCycle_iff.symm
    refine ⟨found, if found then after else after.leave record, ?_, ?_, hiff, ?_⟩
    · rw [visit_of_new hacyclic hpath, hrun]
      rfl
    · cases found with
      | true => exact hafter
      | false =>
        -- The record joins those that are known to reach no cycle.
        intro other hother
        rcases List.mem_cons.1 hother with rfl | hearlier
        · exact fun hcycle => Bool.noConfusion (hiff.2 hcycle)
        · exact hafter other hearlier
    · rintro rfl
      change after.path.dropLast = walk.path
      rw [hback rfl]
      exact List.dropLast_concat

/-- A search from any record finds out whether it reaches a cycle, whatever was searched for
before. -/
theorem check_iff (hsound : walk.Sound catalog) (record : RecordId n) :
    ((walk.check catalog record).1 = true ↔ catalog.ReachesCycle record) ∧
      (walk.check catalog record).2.Sound catalog := by
  have hstart : ({ walk with path := [] } : CycleWalk n).Finds catalog
      (catalog.ReachesCycle record) (visit catalog (n + 1) record) :=
    finds_visit hsound (catalog.leadsTo_nil record) (Nat.le_refl _)
  obtain ⟨found, after, hrun, hafter, hfound, -⟩ := hstart
  have hcheck : walk.check catalog record = (found, after) := by
    change ((visit catalog (n + 1) record).run { walk with path := [] }).getD _ = _
    rw [hrun]
    rfl
  rw [hcheck]
  exact ⟨hfound, hafter⟩

end CycleWalk

theorem Catalog.isInfinitelyNested_iff {record : RecordId n} :
    catalog.isInfinitelyNested record = true ↔ catalog.ReachesCycle record :=
  (CycleWalk.check_iff (CycleWalk.sound_empty catalog) record).1

theorem Catalog.isInfinitelyNested_eq_false_iff {record : RecordId n} :
    catalog.isInfinitelyNested record = false ↔ ¬ catalog.ReachesCycle record := by
  rw [← isInfinitelyNested_iff, Bool.not_eq_true]

end RecordCodec
