import RecordCodec.Proofs.Codec.Core

/-!
# Registries under fixed definitions

As long as the definitions stay as they are, every entry of a registry is what analyzing its record
on an empty registry gives, whichever requests filled the registry and whether they failed or not.
So a request gives the same answer on every such registry.  What it leaves in the registry differs,
but no later answer shows it.
-/

namespace RecordCodec

variable {n : Nat} {catalog : Catalog n} {record : RecordId n}

/-! ## One outcome for each record -/

def Agree {ε α : Type} (first second : ExceptT ε Option α) : Prop :=
  ∀ outcome outcome', first.run = some outcome → second.run = some outcome' → outcome = outcome'

theorem agree_corresponds {ε : Type} : Corresponds (ε := ε) Agree where
  ofExcept _ _ _ h h' := Option.some.inj (h.symm.trans h')
  bind {_ _ first first' next next'} hfirst hnext outcome outcome' h h' := by
    obtain ⟨reached, hreached, hrun⟩ := Option.bind_eq_some_iff.1 h
    obtain ⟨reached', hreached', hrun'⟩ := Option.bind_eq_some_iff.1 h'
    obtain rfl := hfirst reached reached' hreached hreached'
    cases reached with
    | error error => exact Option.some.inj (hrun.symm.trans hrun')
    | ok value => exact hnext value outcome outcome' hrun hrun'

namespace Registry

/-- The entries are outcomes of analysis by the definitions of `catalog`. -/
abbrev Faithful (registry : Registry n) (catalog : Catalog n) : Prop :=
  registry.Coherent (· = catalog)

theorem admits_faithful (catalog : Catalog n) :
    Analysis.Admits (fun registry => Faithful registry catalog) catalog :=
  admits_coherent rfl

theorem faithful_empty (catalog : Catalog n) : Faithful Memo.empty catalog :=
  coherent_empty _

variable {registry registry' : Registry n} {outcome outcome' : SchemaResult n}

/-- Registries that are faithful to the same definitions explain no two different outcomes. -/
theorem Explains.unique (h : registry.Faithful catalog) (h' : registry'.Faithful catalog)
    (hexplains : registry.Explains catalog record outcome)
    (hexplains' : registry'.Explains catalog record outcome') : outcome = outcome' := by
  have hanalysis (record : RecordId n)
      (hknown : ∀ target, catalog.Nests record target → ¬ catalog.ReachesCycle target →
        Agree (registry.known target) (registry'.known target)) :
      Agree (catalog.analysis registry.known record) (catalog.analysis registry'.known record) :=
    agree_corresponds.analysis hknown
  have hknown {target : RecordId n} (hacyclic : ¬ catalog.ReachesCycle target) :
      Agree (registry.known target) (registry'.known target) := by
    refine Catalog.acyclic_induction (motive := fun target =>
      Agree (registry.known target) (registry'.known target)) (fun inner _ ih => ?_) hacyclic
    intro entry entry' hget hget'
    obtain ⟨_, rfl, hentry⟩ := h inner entry hget
    obtain ⟨_, rfl, hentry'⟩ := h' inner entry' hget'
    exact hanalysis inner (fun target hnests _ => ih target hnests) entry entry'
      (hentry registry (.refl registry)) (hentry' registry' (.refl registry'))
  exact hanalysis record (fun _ _ => hknown) outcome outcome' (hexplains registry (.refl registry))
    (hexplains' registry' (.refl registry'))

end Registry

def Catalog.outcome (catalog : Catalog n) (record : RecordId n) : SchemaResult n :=
  ((Registry.analyze catalog record).run .empty).1

namespace Registry

variable {registry : Registry n} {outcome : SchemaResult n}

theorem Faithful.eq_outcome (h : registry.Faithful catalog)
    (hexplains : registry.Explains catalog record outcome) : outcome = catalog.outcome record := by
  obtain ⟨fresh, after, hrun, hafter, -, hfresh⟩ :=
    run_analyze (admits_faithful catalog) (faithful_empty catalog) record
  have houtcome : catalog.outcome record = fresh := congrArg Prod.fst hrun
  rw [houtcome]
  exact Explains.unique h hafter hexplains hfresh

theorem Faithful.get?_eq_outcome (h : registry.Faithful catalog)
    (hget : registry.get? record = some outcome) : outcome = catalog.outcome record := by
  obtain ⟨_, rfl, hexplains⟩ := h record outcome hget
  exact h.eq_outcome hexplains

/-! ## Computations that do not depend on the registry -/

/-- On every registry that is faithful to `catalog` the computation gives `answer`, and it leaves a
faithful registry. -/
def Gives {α : Type} (catalog : Catalog n) (computation : StateM (Registry n) α) (answer : α) :
    Prop :=
  ∀ registry, Faithful registry catalog →
    (computation.run registry).1 = answer ∧ Faithful (computation.run registry).2 catalog

namespace Gives

variable {α β : Type} {computation : StateM (Registry n) α} {answer : α}

theorem eq_empty (h : Gives catalog computation answer) :
    (computation.run .empty).1 = answer :=
  (h .empty (faithful_empty catalog)).1

theorem map (h : Gives catalog computation answer) (f : α → β) :
    Gives catalog (f <$> computation) (f answer) :=
  fun registry hregistry =>
    ⟨congrArg f (h registry hregistry).1, (h registry hregistry).2⟩

theorem mapM {f : β → StateM (Registry n) α} {answers : β → α}
    (h : ∀ item, Gives catalog (f item) (answers item)) (items : List β) :
    Gives catalog (items.mapM f) (items.map answers) := by
  intro registry hregistry
  induction items generalizing registry with
  | nil => exact ⟨rfl, hregistry⟩
  | cons item items ih =>
    obtain ⟨hfirst, hreached⟩ := h item registry hregistry
    obtain ⟨hothers, hafter⟩ := ih _ hreached
    rw [List.mapM_cons, List.map_cons, ← hfirst, ← hothers]
    exact ⟨rfl, hafter⟩

end Gives

theorem gives_schema (catalog : Catalog n) (record : RecordId n) :
    Gives catalog (Registry.schema catalog record) (catalog.outcome record) := by
  intro registry hregistry
  obtain ⟨outcome, after, hrun, hafter, -, hget⟩ :=
    run_schema (admits_faithful catalog) hregistry record
  rw [hrun]
  exact ⟨Faithful.get?_eq_outcome hafter hget, hafter⟩

theorem gives_analyze (catalog : Catalog n) (record : RecordId n) :
    Gives catalog (Registry.analyze catalog record) (catalog.outcome record) := by
  intro registry hregistry
  obtain ⟨outcome, after, hrun, hafter, -, hexplains⟩ :=
    run_analyze (admits_faithful catalog) hregistry record
  rw [hrun]
  exact ⟨Faithful.eq_outcome hafter hexplains, hafter⟩

/-- The generation comes to the same on every registry that is faithful to `catalog`. -/
def Transparent {α : Type} (catalog : Catalog n) (generation : Generation n α) : Prop :=
  ∃ outcome, Gives catalog generation.run outcome

namespace Transparent

variable {α β : Type}

theorem ofExcept (catalog : Catalog n) (outcome : Except CodecError α) :
    Transparent catalog (ExceptT.mk (Pure.pure outcome)) :=
  ⟨outcome, fun _ hregistry => ⟨rfl, hregistry⟩⟩

theorem pure (catalog : Catalog n) (value : α) : Transparent catalog (Pure.pure value) :=
  ofExcept catalog (.ok value)

theorem bind {first : Generation n α} {next : α → Generation n β}
    (hfirst : Transparent catalog first) (hnext : ∀ value, Transparent catalog (next value)) :
    Transparent catalog (first >>= next) := by
  obtain ⟨outcome, hfirst⟩ := hfirst
  have hcont : ∃ result, Gives catalog (ExceptT.bindCont next outcome) result := by
    cases outcome with
    | error error => exact ofExcept catalog (.error error)
    | ok value => exact hnext value
  obtain ⟨result, hcont⟩ := hcont
  refine ⟨result, fun registry hregistry => ?_⟩
  obtain ⟨houtcome, hreached⟩ := hfirst registry hregistry
  change (ExceptT.bindCont next (first.run registry).1 (first.run registry).2).1 = _ ∧
    Faithful (ExceptT.bindCont next (first.run registry).1 (first.run registry).2).2 catalog
  rw [show (first.run registry).1 = outcome from houtcome]
  exact hcont _ hreached

end Transparent

end Registry

/-! ## Compiling -/

namespace PlanQueue

open Registry

theorem place_transparent (catalog : Catalog n) (queue : PlanQueue n) (target : RecordId n) :
    Transparent catalog (queue.place catalog target) := by
  rw [place]
  cases queue.found.findIdx? (·.record == target) with
  | some place => exact .pure catalog _
  | none =>
    have hschema : Transparent catalog (ExceptT.mk (do
        return (← Registry.schema catalog target).mapError CodecError.schema)) :=
      ⟨_, (gives_schema catalog target).map (·.mapError CodecError.schema)⟩
    exact hschema.bind fun schema => .pure catalog _

theorem planFields_transparent (catalog : Catalog n) (queue : PlanQueue n)
    (fields : List (FieldLayout n)) : Transparent catalog (planFields catalog queue fields) := by
  induction fields generalizing queue with
  | nil => exact .pure catalog _
  | cons field fields ih =>
    rw [planFields]
    cases field.wire with
    | leaf kind => exact (ih queue).bind fun _ => .pure catalog _
    | nested target =>
      exact (place_transparent catalog queue target).bind fun result =>
        (ih result.2).bind fun _ => .pure catalog _

theorem drain_transparent (catalog : Catalog n) (rounds : Nat) (queue : PlanQueue n) :
    Transparent catalog (drain catalog rounds queue) := by
  induction rounds generalizing queue with
  | zero => exact .pure catalog _
  | succ rounds ih =>
    rw [drain]
    cases queue.found[queue.plans.size]? with
    | none => exact .pure catalog _
    | some schema =>
      exact (planFields_transparent catalog queue schema.fields).bind fun result => ih _

end PlanQueue

theorem CoreCodec.generate_transparent (catalog : Catalog n) (schema : Schema n)
    (limits : Limits) : Registry.Transparent catalog (generate catalog schema limits) := by
  have hcompile : Registry.Transparent catalog (Program.compile catalog schema) :=
    (PlanQueue.drain_transparent catalog n _).bind fun queue =>
      (Registry.Transparent.ofExcept catalog (Program.verify { plans := queue.plans })).bind
        fun _ => .pure catalog _
  exact hcompile.bind fun program => .pure catalog _

/-! ## Requests to a registry -/

namespace Registry

inductive Query (n : Nat) where
  | schema (record : RecordId n)
  | analyze (record : RecordId n)
  | generate (root : Schema n) (limits : Limits)

/-- The answer to a request: the outcome of an analysis, or of generating a core codec. -/
inductive Answer (n : Nat) where
  | analyzed (outcome : SchemaResult n)
  | generated (outcome : Except CodecError (CoreCodec n))

namespace Query

def ask (catalog : Catalog n) : Query n → StateM (Registry n) (Answer n)
  | schema record => Answer.analyzed <$> Registry.schema catalog record
  | analyze record => Answer.analyzed <$> Registry.analyze catalog record
  | generate root limits => Answer.generated <$> (CoreCodec.generate catalog root limits).run

/-- The answer that an empty registry gives; a schema is then the outcome of analyzing. -/
def fresh (catalog : Catalog n) : Query n → Answer n
  | schema record | analyze record => .analyzed ((Registry.analyze catalog record).run .empty).1
  | generate root limits => .generated ((CoreCodec.generate catalog root limits).run .empty).1

theorem gives_ask (catalog : Catalog n) (query : Query n) :
    Gives catalog (query.ask catalog) (query.fresh catalog) := by
  cases query with
  | schema record => exact (gives_schema catalog record).map Answer.analyzed
  | analyze record => exact (gives_analyze catalog record).map Answer.analyzed
  | generate root limits =>
    obtain ⟨outcome, hgives⟩ := CoreCodec.generate_transparent catalog root limits
    have hfresh : (Query.generate root limits).fresh catalog = .generated outcome :=
      congrArg Answer.generated hgives.eq_empty
    rw [hfresh]
    exact hgives.map Answer.generated

end Query

/-- In whichever order a registry that was empty is asked for schemas, analyses and core codecs, it
answers each request as an empty registry does. -/
theorem answers_as_if_empty (catalog : Catalog n) (queries : List (Query n)) :
    ((queries.mapM (Query.ask catalog)).run .empty).1 = queries.map (Query.fresh catalog) :=
  (Gives.mapM (Query.gives_ask catalog) queries).eq_empty

/-! ## Cores generated under fixed definitions -/

/-- The registry was empty once and was asked some requests since, all with the definitions of
`catalog`. -/
def AskedUnder (registry : Registry n) (catalog : Catalog n) : Prop :=
  ∃ queries : List (Query n), ((queries.mapM (Query.ask catalog)).run .empty).2 = registry

theorem AskedUnder.faithful {registry : Registry n} (h : registry.AskedUnder catalog) :
    registry.Faithful catalog := by
  obtain ⟨queries, rfl⟩ := h
  exact (Gives.mapM (Query.gives_ask catalog) queries .empty (faithful_empty catalog)).2

end Registry

/-- A schema that a registry gives is the outcome of analysis. -/
theorem Catalog.finds_of_outcome {schema : Schema n} (h : catalog.outcome record = .ok schema) :
    ∃ registry : Registry n, registry.Faithful catalog ∧
      catalog.Finds registry.known record schema := by
  obtain ⟨fresh, after, hrun, hafter, -, hfresh⟩ :=
    Registry.run_analyze (Registry.admits_faithful catalog) (Registry.faithful_empty catalog) record
  obtain rfl : fresh = .ok schema := (congrArg Prod.fst hrun).symm.trans h
  exact ⟨after, hafter, finds_of_run_analysis (hfresh after (.refl after))⟩

/-- The core was generated for the schema of `record`, which was looked up or analyzed, and all
requests to the registries used were made with the definitions of `catalog`. -/
def CoreCodec.GeneratedUnder (core : CoreCodec n) (catalog : Catalog n) (record : RecordId n) :
    Prop :=
  ∃ (root : Schema n) (limits : Limits) (registry registry' : Registry n),
    registry.AskedUnder catalog ∧ registry'.AskedUnder catalog ∧
      (((Registry.schema catalog record).run registry).1 = .ok root ∨
        ((Registry.analyze catalog record).run registry).1 = .ok root) ∧
      ((generate catalog root limits).run registry').1 = .ok core

namespace CoreCodec.GeneratedUnder

variable {core : CoreCodec n}

/-- The schema that a core was generated for is the outcome of analysis by the same definitions. -/
theorem exists_outcome (h : core.GeneratedUnder catalog record) :
    ∃ (root : Schema n) (limits : Limits) (registry : Registry n),
      catalog.outcome record = .ok root ∧ registry.Faithful catalog ∧
        ((generate catalog root limits).run registry).1 = .ok core := by
  obtain ⟨root, limits, registry, registry', hregistry, hregistry', hroot, hrun⟩ := h
  refine ⟨root, limits, registry', ?_, hregistry'.faithful, hrun⟩
  rcases hroot with hschema | hanalyze
  · exact (Registry.gives_schema catalog record registry hregistry.faithful).1.symm.trans hschema
  · exact (Registry.gives_analyze catalog record registry hregistry.faithful).1.symm.trans hanalyze

theorem record_eq (h : core.GeneratedUnder catalog record) : core.record = record := by
  obtain ⟨root, limits, registry, houtcome, hregistry, hrun⟩ := h.exists_outcome
  obtain ⟨hrecord, -⟩ :=
    (leads_generate (Registry.admits_faithful catalog) (fun _ hfaithful => hfaithful.sound) root
      limits registry hregistry).1 core hrun
  obtain ⟨_, -, hfinds⟩ := Catalog.finds_of_outcome houtcome
  exact hrecord.trans hfinds.record_eq

/-- The schemas that were found for the program are outcomes of analysis by the same definitions. -/
theorem exists_flattens (h : core.GeneratedUnder catalog record) :
    ∃ root found registry, core.program.verify = .ok () ∧
      core.program.Flattens (fun registry => Registry.Faithful registry catalog) root found
        registry ∧
      root.record = record ∧ ∀ schema ∈ found, catalog.outcome schema.record = .ok schema := by
  obtain ⟨root, limits, registry, houtcome, hregistry, hrun⟩ := h.exists_outcome
  obtain ⟨-, -, hverify, found, hflattens⟩ :=
    (leads_generate (Registry.admits_faithful catalog) (fun _ hfaithful => hfaithful.sound) root
      limits registry hregistry).1 core hrun
  obtain ⟨_, -, hfinds⟩ := Catalog.finds_of_outcome houtcome
  refine ⟨root, found, _, hverify, hflattens, hfinds.record_eq, fun schema hschema => ?_⟩
  rcases hflattens.sound.held schema hschema with rfl | hheld
  · rw [hfinds.record_eq]
    exact houtcome
  · exact (Registry.Faithful.get?_eq_outcome hflattens.sound.holds hheld).symm

end CoreCodec.GeneratedUnder

end RecordCodec
