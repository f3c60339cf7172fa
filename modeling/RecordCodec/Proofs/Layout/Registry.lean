import RecordCodec.Proofs.Invariant
import RecordCodec.Proofs.Layout.Analysis
import RecordCodec.Proofs.Plan.WellFormed

/-!
# What a registry holds

A request to a registry ends, keeps every entry, and gives what analysis gives if the schemas of
nested records are taken from the entries that it leaves.  So an invariant of the registry needs to
be checked only for one more entry at a time.  Whatever was asked of a registry, and whatever the
definitions were at the time, every schema that it holds is one of the record that it was asked for,
no enum in it has more variants than one byte tells apart, and the schemas of nested records that it
was made from are in the registry still.
-/

namespace RecordCodec

variable {n : Nat}

/-! ## Runs -/

def Registry.known (registry : Registry n) (record : RecordId n) :
    ExceptT SchemaError Option (Schema n) :=
  ExceptT.mk (registry.get? record)

/-- The entries of the registry, whatever is added to them, make `outcome` the outcome of analyzing
`record`. -/
def Registry.Explains (registry : Registry n) (catalog : Catalog n) (record : RecordId n)
    (outcome : SchemaResult n) : Prop :=
  ∀ later : Registry n, later.Extends registry →
    (catalog.analysis later.known record).run = some outcome

theorem Registry.Explains.mono {registry after : Registry n} {catalog : Catalog n}
    {record : RecordId n} {outcome : SchemaResult n}
    (h : registry.Explains catalog record outcome) (hafter : after.Extends registry) :
    after.Explains catalog record outcome :=
  fun later hlater => h later (hlater.trans hafter)

namespace Analysis

variable {invariant : Registry n → Prop} {catalog : Catalog n} {record : RecordId n}
variable {schemaOf : RecordId n → Lookup n (SchemaResult n)} {registry : Registry n} {depth : Nat}

/-- Where `invariant` holds, the lookup ends, and it keeps `invariant` and every entry.  Its outcome
is `told`, provided that `later` has the entries that it leaves. -/
def Settles (invariant : Registry n → Prop) (later : Registry n) {α : Type}
    (lookup : ExceptT SchemaError (Lookup n) α) (told : ExceptT SchemaError Option α) : Prop :=
  ∀ registry, invariant registry → ∃ outcome after,
    lookup.run registry = some (outcome, after) ∧ invariant after ∧ after.Extends registry ∧
      (later.Extends after → told.run = some outcome)

theorem settles_corresponds (invariant : Registry n → Prop) (later : Registry n) :
    Corresponds (Settles invariant later) where
  ofExcept outcome registry hregistry :=
    ⟨outcome, registry, rfl, hregistry, .refl registry, fun _ => rfl⟩
  bind {_ _ first first' next next'} hfirst hnext registry hregistry := by
    obtain ⟨outcome, reached, hrun, hreached, hextends, htold⟩ := hfirst registry hregistry
    have hbind : (first >>= next).run registry = ExceptT.bindCont next outcome reached := by
      change (first.run registry).bind (fun result => ExceptT.bindCont next result.1 result.2) = _
      rw [hrun]
      rfl
    have hbind' (hlater : later.Extends reached) :
        (first' >>= next').run = ExceptT.bindCont next' outcome := by
      change first'.run.bind (ExceptT.bindCont next') = _
      rw [htold hlater]
      rfl
    cases outcome with
    | error error =>
      exact ⟨.error error, reached, hbind, hreached, hextends, hbind'⟩
    | ok value =>
      obtain ⟨outcome, after, hrun', hafter, hextends', htold'⟩ := hnext value reached hreached
      refine ⟨outcome, after, hbind.trans hrun', hafter, hextends'.trans hextends, fun hlater => ?_⟩
      exact (hbind' (hlater.trans hextends')).trans (htold' hlater)

/-- Where `invariant` holds, the lookup of `record` ends, keeps `invariant` and every entry, and
leaves its outcome as an entry. -/
def Answers (invariant : Registry n → Prop) (schemaOf : RecordId n → Lookup n (SchemaResult n))
    (record : RecordId n) : Prop :=
  ∀ registry, invariant registry → ∃ outcome after,
    schemaOf record registry = some (outcome, after) ∧ invariant after ∧ after.Extends registry ∧
      after.get? record = some outcome

/-- An analysis whose lookups are answered ends, keeps `invariant` and every entry, and the entries
that it leaves explain its outcome. -/
theorem exists_run_analyzeWith
    (hschemaOf : ∀ target, catalog.Nests record target → ¬ catalog.ReachesCycle target →
      Answers invariant schemaOf target)
    (hregistry : invariant registry) :
    ∃ outcome after, analyzeWith catalog schemaOf record registry = some (outcome, after) ∧
      invariant after ∧ after.Extends registry ∧ after.Explains catalog record outcome := by
  have hsettles (later : Registry n) :
      Settles invariant later (ExceptT.mk (analyzeWith catalog schemaOf record))
        (catalog.analysis later.known record) := by
    rw [analyzeWith_eq]
    apply (settles_corresponds invariant later).analysis
    intro target hnests hacyclic registry hregistry
    obtain ⟨outcome, after, hrun, hafter, hextends, hget⟩ :=
      hschemaOf target hnests hacyclic registry hregistry
    exact ⟨outcome, after, hrun, hafter, hextends, fun hlater => hlater _ _ hget⟩
  obtain ⟨outcome, after, hrun, hafter, hextends, -⟩ := hsettles .empty registry hregistry
  refine ⟨outcome, after, hrun, hafter, hextends, fun later hlater => ?_⟩
  obtain ⟨outcome', after', hrun', -, -, htold⟩ := hsettles later registry hregistry
  obtain ⟨rfl, rfl⟩ := Prod.mk.inj (Option.some.inj (hrun.symm.trans hrun'))
  exact htold hlater

theorem schemaWithin_of_some {outcome : SchemaResult n} (depth : Nat)
    (hget : registry.get? record = some outcome) :
    schemaWithin catalog (depth + 1) record registry = some (outcome, registry) := by
  change (schemaWithin catalog (depth + 1) record).run registry = _
  simp only [schemaWithin, StateT.run_bind, StateT.run_get, pure_bind, hget]
  rfl

theorem schemaWithin_of_none (depth : Nat) (hget : registry.get? record = none) :
    schemaWithin catalog (depth + 1) record registry =
      (analyzeWith catalog (schemaWithin catalog depth) record registry).map fun found =>
        found.2.getOrInsert record found.1 := by
  change (schemaWithin catalog (depth + 1) record).run registry = _
  simp only [schemaWithin, StateT.run_bind, StateT.run_get, pure_bind, hget]
  exact Option.map_eq_bind.symm

def Admits (invariant : Registry n → Prop) (catalog : Catalog n) : Prop :=
  ∀ registry record outcome, invariant registry → registry.Explains catalog record outcome →
    invariant (registry.getOrInsert record outcome).2

theorem answers_schemaWithin_succ (hadmits : Admits invariant catalog)
    (hnested : ∀ target, catalog.Nests record target → ¬ catalog.ReachesCycle target →
      Answers invariant (schemaWithin catalog depth) target) :
    Answers invariant (schemaWithin catalog (depth + 1)) record := by
  intro registry hregistry
  cases hget : registry.get? record with
  | some present =>
    exact ⟨present, registry, schemaWithin_of_some depth hget, hregistry, .refl registry, hget⟩
  | none =>
    obtain ⟨outcome, after, hrun, hafter, hextends, hexplains⟩ :=
      exists_run_analyzeWith hnested hregistry
    refine ⟨(after.getOrInsert record outcome).1, (after.getOrInsert record outcome).2, ?_,
      hadmits after record outcome hafter hexplains,
      (Memo.extends_getOrInsert after record outcome).trans hextends, ?_⟩
    · rw [schemaWithin_of_none depth hget, hrun]
      rfl
    · rw [Memo.get?_getOrInsert, if_pos rfl, Memo.fst_getOrInsert]

/-- A record that reaches no cycle is answered by as many analyses inside each other as there are
records to be reached from it. -/
theorem answers_schemaWithin_of_acyclic (hadmits : Admits invariant catalog)
    (hacyclic : ¬ catalog.ReachesCycle record) (hheight : catalog.height record ≤ depth) :
    Answers invariant (schemaWithin catalog depth) record := by
  induction depth generalizing record with
  | zero => exact absurd (catalog.height_pos record) (Nat.not_lt.2 hheight)
  | succ depth ih =>
    apply answers_schemaWithin_succ hadmits
    intro target hnests htarget
    have hlower := Catalog.height_lt_of_nests hacyclic hnests
    exact ih htarget (by omega)

theorem answers_schemaWithin (hadmits : Admits invariant catalog) (record : RecordId n) :
    Answers invariant (schemaWithin catalog (n + 1)) record :=
  answers_schemaWithin_succ hadmits fun target _ htarget =>
    answers_schemaWithin_of_acyclic hadmits htarget (catalog.height_le target)

end Analysis

namespace Registry

open Analysis

variable {invariant : Registry n → Prop} {catalog : Catalog n} {registry : Registry n}

/-- Asking for a schema keeps `invariant` and every entry, and leaves the outcome as an entry. -/
theorem run_schema (hadmits : Admits invariant catalog) (hregistry : invariant registry)
    (record : RecordId n) :
    ∃ outcome after, (Registry.schema catalog record).run registry = (outcome, after) ∧
      invariant after ∧ after.Extends registry ∧ after.get? record = some outcome := by
  obtain ⟨outcome, after, hrun, hafter⟩ := answers_schemaWithin hadmits record registry hregistry
  refine ⟨outcome, after, ?_, hafter⟩
  change (schemaWithin catalog (n + 1) record registry).getD _ = _
  rw [hrun]
  rfl

/-- An analysis keeps `invariant` and every entry, and the entries that it leaves explain its
outcome. -/
theorem run_analyze (hadmits : Admits invariant catalog) (hregistry : invariant registry)
    (record : RecordId n) :
    ∃ outcome after, (Registry.analyze catalog record).run registry = (outcome, after) ∧
      invariant after ∧ after.Extends registry ∧ after.Explains catalog record outcome := by
  obtain ⟨outcome, after, hrun, hafter⟩ :=
    exists_run_analyzeWith (fun target _ _ => answers_schemaWithin hadmits target) hregistry
  refine ⟨outcome, after, ?_, hafter⟩
  change (analyzeWith catalog (schemaWithin catalog (n + 1)) record registry).getD _ = _
  rw [hrun]
  rfl

end Registry

/-! ## Every entry by itself -/

def AdmissibleFields (fields : List (FieldLayout n)) : Prop :=
  ∀ field ∈ fields, ∀ kind, field.wire = .leaf kind → kind.Admissible

/-- The schema is one of `record`, with admissible fields. -/
structure Schema.Describes (schema : Schema n) (record : RecordId n) : Prop where
  record_eq : schema.record = record
  admissible : AdmissibleFields schema.fields

/-- Every schema in the registry is one of the record that it was asked for. -/
def Registry.Sound (registry : Registry n) : Prop :=
  registry.All fun record outcome => ∀ schema, outcome = .ok schema → schema.Describes record

/-- Resolving a field refuses an enum with too many variants, and a 32-bit field in full width. -/
theorem FieldDef.admissible_of_wire {record : String} {field : FieldDef n} {kind : Leaf}
    (h : field.wire record = .ok (.leaf kind)) : kind.Admissible := by
  rw [FieldDef.wire] at h
  split at h
  case h_2 | h_3 =>
    cases h
    exact Width.noConfusion
  case h_13 =>
    split at h
    · cases h
    · rename_i hvariants
      cases h
      exact Nat.not_lt.1 hvariants
  all_goals
    cases h
    try trivial

theorem Catalog.Finds.describes {catalog : Catalog n} {record : RecordId n} {schema : Schema n}
    {known : RecordId n → ExceptT SchemaError Option (Schema n)}
    (h : catalog.Finds known record schema) : schema.Describes record where
  record_eq := h.record_eq
  admissible layout hlayout kind hkind := by
    obtain ⟨field, -, hfield⟩ := exists_left_of_forall₂ h.fields hlayout
    exact FieldDef.admissible_of_wire (hkind ▸ hfield.wire_eq)

namespace Registry

open Analysis

theorem admits_sound (catalog : Catalog n) : Admits Sound catalog := by
  intro registry record outcome hregistry hexplains
  refine (hregistry.getOrInsert fun schema hschema => ?_).2
  subst hschema
  exact (Catalog.finds_of_run_analysis (hexplains registry (.refl registry))).describes

theorem schema_maintains (catalog : Catalog n) (record : RecordId n) :
    Maintains Sound (·.Describes record) (ExceptT.mk (schema catalog record)) := by
  intro registry hregistry
  obtain ⟨outcome, after, hrun, hafter, -, hget⟩ :=
    run_schema (admits_sound catalog) hregistry record
  change (ExceptT.mk (schema catalog record)).run registry = (outcome, after) at hrun
  rw [hrun]
  exact ⟨hafter, hafter record outcome hget⟩

theorem analyze_maintains (catalog : Catalog n) (record : RecordId n) :
    Maintains Sound (·.Describes record) (ExceptT.mk (analyze catalog record)) := by
  intro registry hregistry
  obtain ⟨outcome, after, hrun, hafter, -, hexplains⟩ :=
    run_analyze (admits_sound catalog) hregistry record
  change (ExceptT.mk (analyze catalog record)).run registry = (outcome, after) at hrun
  rw [hrun]
  refine ⟨hafter, fun schema hschema => ?_⟩
  obtain rfl : outcome = .ok schema := hschema
  exact (Catalog.finds_of_run_analysis (hexplains after (.refl after))).describes

end Registry

/-! ## Entries and those that they were made from -/

/-- Every entry is the outcome of analysis by definitions that were allowed, with the schemas of
nested records taken from the registry itself. -/
def Registry.Coherent (allowed : Catalog n → Prop) (registry : Registry n) : Prop :=
  registry.All fun record outcome =>
    ∃ catalog, allowed catalog ∧ registry.Explains catalog record outcome

namespace Registry

open Analysis

variable {allowed : Catalog n → Prop} {registry : Registry n} {record : RecordId n}

theorem coherent_empty (allowed : Catalog n → Prop) : Coherent allowed Memo.empty :=
  Memo.all_empty

/-- What is added later does not change what explains the earlier entries. -/
theorem admits_coherent {catalog : Catalog n} (hcatalog : allowed catalog) :
    Admits (Coherent allowed) catalog := by
  intro registry record outcome hregistry hexplains
  have hextends := Memo.extends_getOrInsert registry record outcome
  have hkept : registry.All fun other entry => ∃ catalog', allowed catalog' ∧
      Explains (registry.getOrInsert record outcome).2 catalog' other entry := by
    intro other entry hget
    obtain ⟨catalog', hcatalog', hentry⟩ := hregistry other entry hget
    exact ⟨catalog', hcatalog', hentry.mono (Memo.extends_getOrInsert _ _ _)⟩
  exact (hkept.getOrInsert ⟨catalog, hcatalog, hexplains.mono hextends⟩).2

/-- Every schema in the registry was found by some definitions, from schemas that are there. -/
theorem Coherent.exists_finds (h : registry.Coherent allowed) {schema : Schema n}
    (hget : registry.get? record = some (.ok schema)) :
    ∃ catalog : Catalog n, allowed catalog ∧ catalog.Finds registry.known record schema := by
  obtain ⟨catalog, hcatalog, hexplains⟩ := h record _ hget
  exact ⟨catalog, hcatalog,
    Catalog.finds_of_run_analysis (hexplains registry (.refl registry))⟩

theorem Coherent.sound (h : registry.Coherent allowed) : registry.Sound := by
  rintro record outcome hget schema rfl
  obtain ⟨catalog, -, hfinds⟩ := h.exists_finds hget
  exact hfinds.describes

end Registry

end RecordCodec
