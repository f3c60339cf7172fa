import RecordCodec.Proofs.Layout.Footprint
import RecordCodec.Proofs.Record.Searches

/-!
# Analyses inside each other

A registry analyzes records inside the analyses of other records, and it keeps no note of what is
under way.  None is needed, since only nested records that reach no cycle are looked up.  Here the
lookups are put under watch: a watched lookup gives up if a record under way is to be analyzed
again, or if an outcome is to be inserted where an entry is by now.  It never does, however deep it
may go, and whatever the registry holds.
-/

namespace RecordCodec

variable {n : Nat} {catalog : Catalog n} {record : RecordId n}

namespace Analysis

/-- The registry's outcome for `record`, while the records `underWay` are being analyzed.  `none`
when `depth` analyses inside each other are not enough, when one of a record under way begins, or
when the record has got an entry by the time its own outcome is found. -/
def schemaWatched (catalog : Catalog n) : (depth : Nat) → (underWay : List (RecordId n)) →
    RecordId n → Lookup n (SchemaResult n)
  | 0, _, _ => failure
  | depth + 1, underWay, record => do
    match (← get).get? record with
    | some outcome => return outcome
    | none =>
      if underWay.contains record then
        failure
      else
        let outcome ← analyzeWith catalog (schemaWatched catalog depth (record :: underWay)) record
        if ((← get).get? record).isSome then
          failure
        else
          modifyGet (·.getOrInsert record outcome)

variable {schemaOf schemaOf' : RecordId n → Lookup n (SchemaResult n)} {registry : Registry n}
variable {underWay : List (RecordId n)} {depth depth' : Nat}

theorem schemaWatched_of_some {outcome : SchemaResult n} (depth : Nat)
    (underWay : List (RecordId n)) (hget : registry.get? record = some outcome) :
    schemaWatched catalog (depth + 1) underWay record registry = some (outcome, registry) := by
  change (schemaWatched catalog (depth + 1) underWay record).run registry = _
  simp only [schemaWatched, StateT.run_bind, StateT.run_get, pure_bind, hget]
  rfl

theorem schemaWatched_of_none (depth : Nat) (hget : registry.get? record = none)
    (hnew : record ∉ underWay) :
    schemaWatched catalog (depth + 1) underWay record registry =
      (analyzeWith catalog (schemaWatched catalog depth (record :: underWay)) record registry).bind
        fun found =>
          if (found.2.get? record).isSome then none
          else some (found.2.getOrInsert record found.1) := by
  have hclear : ¬ underWay.contains record = true := mt List.contains_iff_mem.1 hnew
  change (schemaWatched catalog (depth + 1) underWay record).run registry = _
  simp only [schemaWatched, StateT.run_bind, StateT.run_get, pure_bind, hget, if_neg hclear]
  change (analyzeWith catalog _ record registry).bind _ = _
  congr 1
  funext found
  by_cases hfound : (found.2.get? record).isSome = true
  · simp only [hfound, if_true]
    rfl
  · simp only [hfound]
    rfl

/-- An analysis depends on the lookups of those nested records only that reach no cycle. -/
theorem analyzeWith_congr
    (h : ∀ target, catalog.Nests record target → ¬ catalog.ReachesCycle target →
      schemaOf target = schemaOf' target) :
    analyzeWith catalog schemaOf record = analyzeWith catalog schemaOf' record := by
  have hequal : Corresponds
      fun {α : Type} (first second : ExceptT SchemaError (Lookup n) α) => first = second := {
    ofExcept := fun _ => rfl
    bind := fun hfirst hnext => by rw [hfirst, funext hnext] }
  have hanalysis : ExceptT.mk (analyzeWith catalog schemaOf record) =
      ExceptT.mk (analyzeWith catalog schemaOf' record) := by
    rw [analyzeWith_eq, analyzeWith_eq]
    exact hequal.analysis fun target hnests hacyclic =>
      congrArg ExceptT.mk (h target hnests hacyclic)
  exact congrArg ExceptT.run hanalysis

/-- The watch notices nothing at a record that is not under way, if it notices nothing further
inside. -/
theorem schemaWatched_eq_succ (hnew : record ∉ underWay)
    (hnested : ∀ target, catalog.Nests record target → ¬ catalog.ReachesCycle target →
      schemaWatched catalog depth (record :: underWay) target =
        schemaWithin catalog depth' target) :
    schemaWatched catalog (depth + 1) underWay record =
      schemaWithin catalog (depth' + 1) record := by
  funext registry
  cases hget : registry.get? record with
  | some present => rw [schemaWatched_of_some depth underWay hget, schemaWithin_of_some depth' hget]
  | none =>
    rw [schemaWatched_of_none depth hget hnew, schemaWithin_of_none depth' hget,
      analyzeWith_congr hnested]
    cases hrun : analyzeWith catalog (schemaWithin catalog depth') record registry with
    | none => rfl
    | some found =>
      have habsent : found.2.get? record = none := (get?_of_analyzeWith hrun).trans hget
      simp [habsent]

/-- Nothing under way can be reached from a nested record that reaches no cycle, so the lookups
inside each other are all of different records. -/
theorem schemaWatched_eq_of_acyclic (hacyclic : ¬ catalog.ReachesCycle record)
    (hclear : ∀ outer ∈ underWay, ¬ catalog.Reaches record outer)
    (hdepth : catalog.height record ≤ depth) (hdepth' : catalog.height record ≤ depth') :
    schemaWatched catalog depth underWay record = schemaWithin catalog depth' record := by
  have hpos := catalog.height_pos record
  induction depth generalizing depth' underWay record with
  | zero => omega
  | succ depth ih =>
    obtain ⟨depth', rfl⟩ : ∃ smaller, depth' = smaller + 1 := ⟨depth' - 1, by omega⟩
    apply schemaWatched_eq_succ fun hmem => hclear record hmem .refl
    intro target hnests htarget
    have hlower := Catalog.height_lt_of_nests hacyclic hnests
    refine ih htarget (fun outer houter hreaches => ?_) (by omega) (by omega)
      (catalog.height_pos target)
    rcases List.mem_cons.1 houter with rfl | houter
    · exact Catalog.not_reaches_back hnests htarget hreaches
    · exact hclear outer houter (hreaches.head hnests)

end Analysis

namespace Registry

open Analysis

/-- Looking up and analyzing a record end, whatever the registry holds and however the definitions
nest each other, and the bound on how deep they may go plays no part.  No record is analyzed again
inside its own analysis, and none has an entry when its outcome is inserted: the watch would give
up.  The searches for cycles on the way end as well. -/
theorem never_reenters (catalog : Catalog n) (registry : Registry n) (record : RecordId n)
    {depth : Nat} (hdepth : n < depth) :
    (schemaWatched catalog depth [] record).run registry =
        some ((Registry.schema catalog record).run registry) ∧
      (analyzeWith catalog (schemaWatched catalog depth [record]) record).run registry =
        some ((Registry.analyze catalog record).run registry) ∧
      ∀ earlier other,
        (CycleWalk.visit catalog depth other).run
            { CycleWalk.after catalog earlier with path := [] } =
          some ((CycleWalk.after catalog earlier).check catalog other) := by
  obtain ⟨depth, rfl⟩ : ∃ smaller, depth = smaller + 1 := ⟨depth - 1, by omega⟩
  have hnested {bound bound' : Nat} (hbound : n ≤ bound) (hbound' : n ≤ bound')
      (target : RecordId n) (hnests : catalog.Nests record target)
      (htarget : ¬ catalog.ReachesCycle target) :
      schemaWatched catalog bound [record] target = schemaWithin catalog bound' target := by
    have hheight := catalog.height_le target
    refine schemaWatched_eq_of_acyclic htarget (fun outer houter => ?_) (by omega) (by omega)
    obtain rfl := List.mem_singleton.1 houter
    exact Catalog.not_reaches_back hnests htarget
  refine ⟨?_, ?_, fun earlier other => ?_⟩
  · rw [schemaWatched_eq_succ List.not_mem_nil (hnested (Nat.le_of_lt_succ hdepth) (Nat.le_refl n))]
    exact schemaWithin_eq_some catalog record registry
  · rw [analyzeWith_congr (hnested (Nat.le_of_lt hdepth) (Nat.le_succ n))]
    exact analyzeWith_eq_some catalog record registry
  · exact CycleWalk.run_visit_of_lt (CycleWalk.sound_after catalog earlier) other hdepth

end Registry

namespace Sample

/-- A ring nests the next ring and two beads. -/
def ringCatalog : Catalog 2
  | 0 => {
      name := "Ring"
      fields := [
        ⟨"next", .nested 0, .none⟩, ⟨"left", .nested 1, .none⟩, ⟨"right", .nested 1, .none⟩] }
  | 1 => { name := "Bead", fields := [⟨"size", .int8, .none⟩] }

/-- The watch lets the ring pass, which is not looked up for itself again.  Only if it were under
way already would the lookup give up. -/
theorem ring_watched :
    (Analysis.schemaWatched ringCatalog 3 [] 0).run .empty =
        some ((Registry.schema ringCatalog 0).run .empty) ∧
      (((Registry.schema ringCatalog 0).run .empty).2.get? 1).isSome ∧
      (Analysis.schemaWatched ringCatalog 3 [0] 0).run .empty = none :=
  ⟨(Registry.never_reenters ringCatalog .empty 0 (by decide)).1, rfl, rfl⟩

end Sample

end RecordCodec
