import RecordCodec.Proofs.Record.Nesting

/-!
# Searching again

One walk serves any number of searches.  A search that meets a cycle stops in the middle of its
branch and leaves the records on it behind; those it has remembered by then are kept for the
searches that follow.  No search is misled by that: each ends, and each finds out what a search by
a new walk would.
-/

namespace RecordCodec

variable {n : Nat} {catalog : Catalog n}

namespace CycleWalk

variable {walk : CycleWalk n} {record : RecordId n} {records : List (RecordId n)}
variable {depth depth' : Nat} {result : Bool × CycleWalk n}
variable {search search' : RecordId n → StateT (CycleWalk n) Option Bool}

/-! ## Depth

A search that has ended has never asked how much deeper it might have gone. -/

theorem run_anyM_cons (search : RecordId n → StateT (CycleWalk n) Option Bool)
    (walk : CycleWalk n) (record : RecordId n) (records : List (RecordId n)) :
    ((record :: records).anyM search).run walk =
      ((search record).run walk).bind fun (found, after) =>
        if found then some (true, after) else (records.anyM search).run after := by
  change ((search record).run walk).bind _ = _
  congr 1
  funext result
  rcases result with ⟨found, after⟩
  cases found <;> rfl

theorem run_anyM_mono
    (hmore : ∀ record walk result, (search record).run walk = some result →
      (search' record).run walk = some result)
    (hrun : (records.anyM search).run walk = some result) :
    (records.anyM search').run walk = some result := by
  induction records generalizing walk with
  | nil => exact hrun
  | cons record records ih =>
    rw [run_anyM_cons] at hrun ⊢
    obtain ⟨⟨found, after⟩, hfirst, hrest⟩ := Option.bind_eq_some_iff.1 hrun
    rw [hmore _ _ _ hfirst, Option.bind_some]
    cases found with
    | true => exact hrest
    | false => exact ih hrest

theorem visit_mono (hle : depth ≤ depth')
    (hrun : (visit catalog depth record).run walk = some result) :
    (visit catalog depth' record).run walk = some result := by
  induction depth generalizing depth' walk record result with
  | zero => cases hrun
  | succ depth ih =>
    obtain ⟨depth', rfl⟩ := Nat.exists_eq_add_of_lt hle
    by_cases hacyclic : record ∈ walk.acyclic
    · rwa [visit_of_mem_acyclic hacyclic] at hrun ⊢
    by_cases hpath : record ∈ walk.path
    · rwa [visit_of_mem_path hacyclic hpath] at hrun ⊢
    rw [visit_of_new hacyclic hpath] at hrun ⊢
    obtain ⟨nested, hnested, rfl⟩ := Option.map_eq_some_iff.1 hrun
    have hdeeper : ((catalog record).nested.anyM (visit catalog (depth + depth'))).run
        (walk.enter record) = some nested :=
      run_anyM_mono (fun _ _ _ => ih (by omega)) hnested
    rw [hdeeper]
    rfl

/-- A search that may go `n + 1` records deep ends, and it would find the same if it might go as
deep as it liked. -/
theorem run_visit_of_lt (hsound : walk.Sound catalog) (record : RecordId n) (hdepth : n < depth) :
    (visit catalog depth record).run { walk with path := [] } =
      some (walk.check catalog record) := by
  have hstart : ({ walk with path := [] } : CycleWalk n).Finds catalog
      (catalog.ReachesCycle record) (visit catalog (n + 1) record) :=
    finds_visit hsound (catalog.leadsTo_nil record) (Nat.le_refl _)
  obtain ⟨found, after, hrun, -⟩ := hstart
  have hcheck : walk.check catalog record = (found, after) := by
    change ((visit catalog (n + 1) record).run { walk with path := [] }).getD _ = _
    rw [hrun]
    rfl
  rw [hcheck]
  exact visit_mono hdepth hrun

/-! ## One walk for many searches -/

/-- The walk that has searched from each of `records`, one after the other. -/
def after (catalog : Catalog n) (records : List (RecordId n)) : CycleWalk n :=
  records.foldl (fun walk record => (walk.check catalog record).2) empty

theorem Sound.foldl_check (hsound : walk.Sound catalog) (records : List (RecordId n)) :
    (records.foldl (fun walk record => (walk.check catalog record).2) walk).Sound catalog := by
  induction records generalizing walk with
  | nil => exact hsound
  | cons record records ih => exact ih (check_iff hsound record).2

/-- However many searches have been made, and whichever of them met a cycle, the records that are
remembered reach none. -/
theorem sound_after (catalog : Catalog n) (records : List (RecordId n)) :
    (after catalog records).Sound catalog :=
  (sound_empty catalog).foldl_check records

/-- A search ends whatever was searched for before, and it meets a cycle if and only if there is
one to be reached, just as a search by a new walk does. -/
theorem check_after (catalog : Catalog n) (earlier : List (RecordId n)) (record : RecordId n) :
    (∀ depth, n < depth → (visit catalog depth record).run
        { after catalog earlier with path := [] } =
          some ((after catalog earlier).check catalog record)) ∧
      (((after catalog earlier).check catalog record).1 = true ↔ catalog.ReachesCycle record) ∧
      ((after catalog earlier).check catalog record).1 = catalog.isInfinitelyNested record := by
  have hsound : (after catalog earlier).Sound catalog := sound_after catalog earlier
  have hiff := (check_iff hsound record).1
  refine ⟨fun depth hdepth => run_visit_of_lt hsound record hdepth, hiff, ?_⟩
  rw [Bool.eq_iff_iff, hiff, Catalog.isInfinitelyNested_iff]

end CycleWalk

end RecordCodec
