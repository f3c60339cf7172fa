import RecordCodec.Proofs.Layout.Registry

/-!
# Where analysis leaves entries

Analyzing a record asks for the schemas of those nested records only that reach no cycle.  So it
touches no entry but those of the records that can be reached from one of these, and the record
itself is not among them: to come back to it would be a cycle.
-/

namespace RecordCodec

variable {n : Nat} {catalog : Catalog n} {record target other : RecordId n}

namespace Catalog

/-- `other` can be reached from a record that `record` nests and that reaches no cycle. -/
def Needs (catalog : Catalog n) (record other : RecordId n) : Prop :=
  ∃ target, catalog.Nests record target ∧ ¬ catalog.ReachesCycle target ∧
    catalog.Reaches target other

theorem Needs.of_nests {inner : RecordId n} (h : catalog.Needs record other)
    (hnests : catalog.Nests other inner) : catalog.Needs record inner := by
  obtain ⟨target, htarget, hacyclic, hreaches⟩ := h
  exact ⟨target, htarget, hacyclic, hreaches.tail hnests⟩

/-- Nothing that is needed lies outside of a set that nested records do not lead out of. -/
theorem Needs.allowed_of_closed {allowed : RecordId n → Prop} (h : catalog.Needs record other)
    (hclosed : ∀ outer inner, allowed outer → catalog.Nests outer inner → allowed inner)
    (hrecord : allowed record) : allowed other := by
  obtain ⟨target, hnests, -, hreaches⟩ := h
  induction hreaches with
  | refl => exact hclosed record target hrecord hnests
  | tail _ hinner ih => exact hclosed _ _ ih hinner

theorem Needs.reaches (h : catalog.Needs record other) : catalog.Reaches record other := by
  obtain ⟨target, htarget, -, hreaches⟩ := h
  exact hreaches.head htarget

/-- From a nested record that reaches no cycle there is no way back. -/
theorem not_reaches_back (hnests : catalog.Nests record target)
    (hacyclic : ¬ catalog.ReachesCycle target) : ¬ catalog.Reaches target record :=
  fun hback => hacyclic ⟨target, .refl, Relation.TransGen.tail'_iff.2 ⟨record, hback, hnests⟩⟩

theorem not_needs_self (catalog : Catalog n) (record : RecordId n) :
    ¬ catalog.Needs record record := by
  rintro ⟨target, hnests, hacyclic, hback⟩
  exact not_reaches_back hnests hacyclic hback

/-- A record that reaches no cycle needs all that can be reached from it, other than itself. -/
theorem eq_or_needs_iff (hacyclic : ¬ catalog.ReachesCycle record) :
    other = record ∨ catalog.Needs record other ↔ catalog.Reaches record other := by
  constructor
  · rintro (rfl | hneeds)
    · exact .refl
    · exact hneeds.reaches
  · intro hreaches
    rcases hreaches.cases_head with heq | ⟨target, hnests, hinner⟩
    · exact .inl heq.symm
    · exact .inr ⟨target, hnests, mt (.of_nests hnests) hacyclic, hinner⟩

end Catalog

namespace Analysis

variable {schemaOf : RecordId n → Lookup n (SchemaResult n)} {allowed : RecordId n → Prop}
variable {registry after : Registry n} {outcome : SchemaResult n} {depth : Nat}

/-- If the lookup ends, it has changed only the entries of records that are allowed. -/
def ModifiesOnly (allowed : RecordId n → Prop) {α : Type}
    (lookup : ExceptT SchemaError (Lookup n) α) : Prop :=
  ∀ registry outcome after, lookup.run registry = some (outcome, after) →
    ∀ other, ¬ allowed other → after.get? other = registry.get? other

theorem modifiesOnly_corresponds (allowed : RecordId n → Prop) :
    Corresponds fun {α : Type} (first second : ExceptT SchemaError (Lookup n) α) =>
      first = second ∧ ModifiesOnly allowed first where
  ofExcept outcome := by
    refine ⟨rfl, fun registry _ _ hrun => ?_⟩
    cases hrun
    exact fun _ _ => rfl
  bind {_ _ first _ next next'} hfirst hnext := by
    obtain ⟨rfl, hfirst⟩ := hfirst
    obtain rfl : next = next' := funext fun value => (hnext value).1
    refine ⟨rfl, fun registry outcome after hrun other hother => ?_⟩
    change (first.run registry).bind (fun result => ExceptT.bindCont next result.1 result.2) = _
      at hrun
    obtain ⟨⟨reached, between⟩, hreached, hrest⟩ := Option.bind_eq_some_iff.1 hrun
    have hbetween := hfirst registry reached between hreached other hother
    cases reached with
    | error error =>
      cases hrest
      exact hbetween
    | ok value => exact ((hnext value).2 between outcome after hrest other hother).trans hbetween

theorem modifiesOnly_analyzeWith
    (hschemaOf : ∀ target, catalog.Nests record target → ¬ catalog.ReachesCycle target →
      ModifiesOnly allowed (ExceptT.mk (schemaOf target))) :
    ModifiesOnly allowed (ExceptT.mk (analyzeWith catalog schemaOf record)) := by
  rw [analyzeWith_eq]
  exact ((modifiesOnly_corresponds allowed).analysis fun target hnests hacyclic =>
    ⟨rfl, hschemaOf target hnests hacyclic⟩).2

/-- A lookup inserts its outcome, and changes what the analysis changes. -/
theorem modifiesOnly_schemaWithin_succ (hrecord : allowed record)
    (hanalysis : ModifiesOnly allowed
      (ExceptT.mk (analyzeWith catalog (schemaWithin catalog depth) record))) :
    ModifiesOnly allowed (ExceptT.mk (schemaWithin catalog (depth + 1) record)) := by
  intro registry outcome after hrun other hother
  change schemaWithin catalog (depth + 1) record registry = _ at hrun
  cases hget : registry.get? record with
  | some present =>
    rw [schemaWithin_of_some depth hget] at hrun
    cases hrun
    rfl
  | none =>
    rw [schemaWithin_of_none depth hget] at hrun
    obtain ⟨⟨found, between⟩, hfound, hinserted⟩ := Option.map_eq_some_iff.1 hrun
    have hafter : (between.getOrInsert record found).2 = after := congrArg Prod.snd hinserted
    have hdiffers : other ≠ record := fun heq => hother (heq ▸ hrecord)
    rw [← hafter, Memo.get?_getOrInsert, if_neg hdiffers]
    exact hanalysis registry found between hfound other hother

/-- A lookup stays inside any set of records that nested records do not lead out of. -/
theorem modifiesOnly_schemaWithin
    (hclosed : ∀ outer inner, allowed outer → catalog.Nests outer inner → allowed inner)
    (depth : Nat) (hrecord : allowed record) :
    ModifiesOnly allowed (ExceptT.mk (schemaWithin catalog depth record)) := by
  induction depth generalizing record with
  | zero =>
    intro registry outcome after hrun
    cases hrun
  | succ depth ih =>
    exact modifiesOnly_schemaWithin_succ hrecord <| modifiesOnly_analyzeWith
      fun target hnests _ => ih (hclosed record target hrecord hnests)

/-- An analysis changes the entries of needed records only, however deep its lookups may go. -/
theorem modifiesOnly_needs (catalog : Catalog n) (depth : Nat) (record : RecordId n) :
    ModifiesOnly (catalog.Needs record)
      (ExceptT.mk (analyzeWith catalog (schemaWithin catalog depth) record)) :=
  modifiesOnly_analyzeWith fun target hnests hacyclic =>
    modifiesOnly_schemaWithin (fun _ _ => Catalog.Needs.of_nests) depth
      ⟨target, hnests, hacyclic, .refl⟩

/-- So by the time that the outcome of a record is found, the record has no entry yet if it had none
before. -/
theorem get?_of_analyzeWith
    (hrun : analyzeWith catalog (schemaWithin catalog depth) record registry =
      some (outcome, after)) :
    after.get? record = registry.get? record :=
  modifiesOnly_needs catalog depth record registry outcome after hrun record
    (catalog.not_needs_self record)

end Analysis

namespace Registry

open Analysis

/-- A lookup ends within `n + 1` analyses inside each other. -/
theorem schemaWithin_eq_some (catalog : Catalog n) (record : RecordId n) (registry : Registry n) :
    schemaWithin catalog (n + 1) record registry =
      some ((Registry.schema catalog record).run registry) := by
  have hadmits : Admits (fun _ : Registry n => True) catalog := fun _ _ _ _ _ => trivial
  obtain ⟨outcome, after, hrun, -⟩ := answers_schemaWithin hadmits record registry trivial
  change _ = some ((schemaWithin catalog (n + 1) record registry).getD _)
  rw [hrun]
  rfl

theorem analyzeWith_eq_some (catalog : Catalog n) (record : RecordId n) (registry : Registry n) :
    analyzeWith catalog (schemaWithin catalog (n + 1)) record registry =
      some ((Registry.analyze catalog record).run registry) := by
  have hadmits : Admits (fun _ : Registry n => True) catalog := fun _ _ _ _ _ => trivial
  have hanswers (target : RecordId n) (_ : catalog.Nests record target)
      (_ : ¬ catalog.ReachesCycle target) := answers_schemaWithin hadmits target
  obtain ⟨outcome, after, hrun, -⟩ := exists_run_analyzeWith hanswers trivial
  change _ = some ((analyzeWith catalog (schemaWithin catalog (n + 1)) record registry).getD _)
  rw [hrun]
  rfl

/-- Asking for the schema of a record changes no entry but its own and those of the records that it
needs. -/
theorem get?_of_schema (catalog : Catalog n) (registry : Registry n)
    (hother : ¬ (other = record ∨ catalog.Needs record other)) :
    ((Registry.schema catalog record).run registry).2.get? other = registry.get? other := by
  have hmodifies : ModifiesOnly (fun other => other = record ∨ catalog.Needs record other)
      (ExceptT.mk (schemaWithin catalog (n + 1) record)) :=
    modifiesOnly_schemaWithin_succ (.inl rfl) fun registry outcome after hrun other hother =>
      modifiesOnly_needs catalog n record registry outcome after hrun other
        fun hneeds => hother (.inr hneeds)
  exact hmodifies registry _ _ (schemaWithin_eq_some catalog record registry) other hother

end Registry

end RecordCodec
