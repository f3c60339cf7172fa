import RecordCodec.Proofs.Codec.Rejection
import RecordCodec.Proofs.Codec.Upkeep
import RecordCodec.Proofs.Flattening

/-!
# Which records have a codec

As long as the definitions stay as they are, a dynamic codec can be had for exactly those records
that are accepted.  Fields of records that reach no cycle are looked at when the schema is analyzed,
and those of the others when a program is compiled; one or the other meets every field that can be
reached.  A fixed codec is refused without compiling anything, so the refusal leaves no trace, and
it says nothing of the fields that only compiling would meet.
-/

namespace RecordCodec

variable {n : Nat}

/-! ## Generating under fixed definitions -/

theorem Catalog.FlattensInto.accepts {catalog : Catalog n} {record : RecordId n} {program : Program}
    {recordAt : Fin program.plans.size → RecordId n}
    (h : catalog.FlattensInto record program recordAt) : catalog.Accepts record := by
  intro inner hinner field hfield
  obtain ⟨place, rfl⟩ : inner ∈ Set.range recordAt := h.range_eq ▸ hinner
  obtain ⟨step, -, hstep⟩ := exists_right_of_forall₂ (h.planned place).steps hfield
  cases hstep with
  | leaf kind hwire => exact ⟨_, hwire⟩
  | nested target hwire => exact ⟨_, hwire⟩

/-- A core of an accepted record, with the fixed size that analysis found; or else the fault for
which the record is rejected. -/
inductive Catalog.Judges (catalog : Catalog n) (record : RecordId n) :
    Except CodecError (CoreCodec n) → Prop
  | accepted {core : CoreCodec n} (haccepts : catalog.Accepts record)
      (hsize : core.fixedSize = catalog.fixedSize record) : Judges catalog record (.ok core)
  | rejected {fault : SchemaError} (hrejects : catalog.Rejects record fault) :
      Judges catalog record (.error (.schema fault))

theorem outcome_of_carries {catalog : Catalog n} {schema : Schema n} {registry : Registry n}
    (hregistry : Registry.Carries (fun registry => registry.Faithful catalog) schema registry)
    {found : Array (Schema n)}
    (hheld : ∀ other ∈ found, other = schema ∨ registry.get? other.record = some (.ok other)) :
    ∀ other ∈ found, catalog.outcome other.record = .ok other := by
  intro other hother
  rcases hheld other hother with rfl | hentry
  · exact (Registry.Faithful.get?_eq_outcome hregistry.1 hregistry.2).symm
  · exact (Registry.Faithful.get?_eq_outcome hregistry.1 hentry).symm

/-- Generating finds out whether the record is accepted. -/
theorem upholds_judges (limits : Limits) (catalog : Catalog n) :
    Upholds (fun registry => registry.Faithful catalog) catalog.Judges limits catalog := by
  apply upholds_of_generated (Registry.admits_faithful catalog) fun _ hfaithful => hfaithful
  · intro schema core found registry _ hflattens
    have hinto := hflattens.flattensInto
      (outcome_of_carries hflattens.sound.holds hflattens.sound.held)
    exact .accepted hinto.accepts hinto.fixedSize_eq
  · rintro schema _ registry ⟨queue, target, fault, hqueue, hreaches, hget, rfl⟩
    have hfault := Registry.Faithful.get?_eq_outcome hqueue.holds.1 hget
    have hreached :=
      PlanQueue.reaches_of_outcome (outcome_of_carries hqueue.holds hqueue.held) hreaches
    exact .rejected ((Catalog.rejects_of_outcome hfault.symm).of_reaches hreached)

/-- A registry that was asked for the schema of a record has it as an entry from then on. -/
theorem Registry.exists_askedUnder_of_outcome {catalog : Catalog n} {root : Schema n}
    (houtcome : catalog.outcome root.record = .ok root) :
    ∃ registry : Registry n, registry.AskedUnder catalog ∧
      registry.get? root.record = some (.ok root) := by
  obtain ⟨outcome, registry, hrun, hfaithful, -, hget⟩ := run_schema (admits_faithful catalog)
    (faithful_empty catalog) root.record
  obtain rfl : outcome = .ok root := (Faithful.get?_eq_outcome hfaithful hget).trans houtcome
  exact ⟨registry, ⟨[.schema root.record], congrArg Prod.snd hrun⟩, hget⟩

/-- A core codec can be generated exactly for the accepted records, whatever the limits. -/
theorem CoreCodec.exists_generatedUnder_iff {catalog : Catalog n} {record : RecordId n}
    (limits : Limits) :
    (∃ core : CoreCodec n, core.GeneratedUnder catalog record ∧ core.limits = limits) ↔
      catalog.Accepts record := by
  constructor
  · rintro ⟨core, hcore, -⟩
    obtain ⟨root, found, registry, -, hflattens, rfl, houtcome⟩ := hcore.exists_flattens
    exact (hflattens.flattensInto houtcome).accepts
  · intro haccepts
    obtain ⟨root, houtcome⟩ := Catalog.Accepts.exists_outcome haccepts
    obtain ⟨_, -, hfinds⟩ := Catalog.finds_of_outcome houtcome
    obtain rfl : root.record = record := hfinds.record_eq
    obtain ⟨registry, hasked, hget⟩ := Registry.exists_askedUnder_of_outcome houtcome
    have hschema : ((Registry.schema catalog root.record).run registry).1 = .ok root :=
      (Registry.gives_schema catalog root.record registry hasked.faithful).1.trans houtcome
    have hjudges := (upholds_judges limits catalog).generate root registry ⟨hasked.faithful, hget⟩
    cases hrun : ((generate catalog root limits).run registry).1 with
    | error error =>
      cases (hjudges.2 error hrun).1 with
      | rejected hrejects => exact absurd haccepts hrejects.not_accepts
    | ok core =>
      obtain ⟨-, hlimits, -⟩ := (leads_generate (Registry.admits_faithful catalog)
        (fun _ hfaithful => hfaithful.sound) root limits registry hasked.faithful).1 core hrun
      exact ⟨core, ⟨root, limits, registry, registry, hasked, hasked, .inl hschema, hrun⟩, hlimits⟩

theorem CoreCodec.GeneratedUnder.accepts {core : CoreCodec n} {catalog : Catalog n}
    {record : RecordId n} (hcore : core.GeneratedUnder catalog record) : catalog.Accepts record :=
  (exists_generatedUnder_iff core.limits).1 ⟨core, hcore, rfl⟩

/-! ## Requests under fixed definitions -/

namespace Cache

/-- The question is for a codec of `record` in that mode, which may come from one method or the
other. -/
inductive Query.AsksFor (record : RecordId n) : CodecMode → Query n → Prop
  | fixed : AsksFor record .fixed (.fixed record)
  | dynamic : AsksFor record .dynamic (.dynamic record)
  | getOrCreate (mode : CodecMode) : AsksFor record mode (.getOrCreate mode record)

/-- One request to the cache, or to its registry, with the definitions of `catalog`. -/
inductive Step (catalog : Catalog n) : Cache n → Cache n → Prop
  | registry (cache : Cache n) (query : Registry.Query n) :
      Step catalog cache { cache with registry := ((query.ask catalog).run cache.registry).2 }
  | ask (cache : Cache n) (query : Query n) :
      Step catalog cache ((query.ask catalog).run cache).2

def Steps (catalog : Catalog n) : Cache n → Cache n → Prop :=
  Relation.ReflTransGen (Step catalog)

/-- The cache was empty once and was asked some requests since, all with the definitions of
`catalog`. -/
def AskedUnder (cache : Cache n) (catalog : Catalog n) : Prop :=
  ∃ tag limits, Steps catalog (.empty tag limits) cache

variable {catalog : Catalog n} {cache after : Cache n} {record : RecordId n} {query : Query n}

theorem AskedUnder.steps (h : cache.AskedUnder catalog) (hafter : Steps catalog cache after) :
    after.AskedUnder catalog := by
  obtain ⟨tag, limits, hcache⟩ := h
  exact ⟨tag, limits, hcache.trans hafter⟩

/-- The registry is faithful to the definitions, and every slot tells whether its record is
accepted. -/
abbrev Judged (catalog : Catalog n) (limits : Limits) (cache : Cache n) : Prop :=
  cache.Keeps (fun registry => registry.Faithful catalog) catalog.Judges limits

theorem AskedUnder.judged (h : cache.AskedUnder catalog) :
    ∃ limits, cache.Judged catalog limits := by
  obtain ⟨tag, limits, hcache⟩ := h
  refine ⟨limits, ?_⟩
  induction hcache with
  | refl => exact keeps_empty (Registry.faithful_empty catalog) tag
  | tail _ hstep ih =>
    cases hstep with
    | registry query =>
      exact ⟨(query.gives_ask catalog _ ih.registry).2, ih.limits_eq, ih.slots⟩
    | ask query => exact ih.ask (upholds_judges limits catalog) query

/-- A dynamic codec is had of an accepted record, and refused with the fault of a rejected one. -/
theorem leads_dynamic_of_judged (limits : Limits) (record : RecordId n) :
    Leads (Judged catalog limits) (fun _ _ => catalog.Accepts record)
      (fun error _ => ∃ fault, error = .schema fault ∧ catalog.Rejects record fault)
      (dynamic catalog record) := by
  apply (leads_dynamic_of_upholds (upholds_judges limits catalog) record).imp
  · intro codec _ hmade
    cases hmade with
    | accepted haccepts => exact haccepts
  · rintro error cache (hmade | ⟨hcache, fault, rfl, hget⟩)
    · cases hmade with
      | rejected hrejects => exact ⟨_, rfl, hrejects⟩
    · have hfault := Registry.Faithful.get?_eq_outcome hcache.registry hget
      exact ⟨fault, rfl, Catalog.rejects_of_outcome hfault.symm⟩

theorem getOrCreate_dynamic (catalog : Catalog n) (record : RecordId n) :
    getOrCreate catalog .dynamic record = Codec.dynamic <$> dynamic catalog record := by
  simp [getOrCreate, dynamic]

theorem getOrCreate_fixed (catalog : Catalog n) (record : RecordId n) :
    getOrCreate catalog .fixed record = Codec.fixed <$> fixed catalog record := by
  simp [getOrCreate, fixed]

/-- It does not matter which method was asked. -/
theorem Query.AsksFor.ask_eq_dynamic (h : query.AsksFor record .dynamic) :
    query.ask catalog = Codec.dynamic <$> Cache.dynamic catalog record := by
  cases h with
  | dynamic => rfl
  | getOrCreate => exact getOrCreate_dynamic catalog record

theorem Query.AsksFor.ask_eq_fixed (h : query.AsksFor record .fixed) :
    query.ask catalog = Codec.fixed <$> Cache.fixed catalog record := by
  cases h with
  | fixed => rfl
  | getOrCreate => exact getOrCreate_fixed catalog record

/-- So every dynamic request finds out whether the record is accepted. -/
theorem AskedUnder.dynamic_judged (hcache : cache.AskedUnder catalog)
    (hquery : query.AsksFor record .dynamic) :
    ((∃ codec, ((query.ask catalog).run cache).1 = .ok codec) ↔ catalog.Accepts record) ∧
      ∀ error, ((query.ask catalog).run cache).1 = .error error →
        ∃ fault, error = .schema fault ∧ catalog.Rejects record fault := by
  obtain ⟨limits, hjudged⟩ := hcache.judged
  have hleads : Leads (Judged catalog limits) (fun _ _ => catalog.Accepts record)
      (fun error _ => ∃ fault, error = .schema fault ∧ catalog.Rejects record fault)
      (query.ask catalog) := by
    rw [hquery.ask_eq_dynamic]
    exact (leads_dynamic_of_judged limits record).map fun _ _ haccepts => haccepts
  obtain ⟨hok, herror⟩ := hleads cache hjudged
  refine ⟨⟨fun ⟨codec, hcodec⟩ => hok codec hcodec, fun haccepts => ?_⟩, herror⟩
  cases hrun : ((query.ask catalog).run cache).1 with
  | ok codec => exact ⟨codec, rfl⟩
  | error error =>
    obtain ⟨fault, -, hrejects⟩ := herror error hrun
    exact absurd haccepts hrejects.not_accepts

/-- Generation accepts exactly the valid records.  Under fixed definitions, whatever a cache was
asked before, there is a dynamic codec of a record if and only if every field is allowed of every
record that it reaches, itself among them.  Otherwise the request is refused with a schema error
that names such a field and its record, the error of resolving that field. -/
theorem AskedUnder.accepts_exactly (hcache : cache.AskedUnder catalog)
    (hquery : query.AsksFor record .dynamic) :
    ((∃ codec, ((query.ask catalog).run cache).1 = .ok codec) ↔
      ∀ inner, catalog.Reaches record inner → ∀ field ∈ (catalog inner).fields,
        ∃ wire, field.wire (catalog inner).name = .ok wire) ∧
    ∀ error, ((query.ask catalog).run cache).1 = .error error →
      ∃ inner, catalog.Reaches record inner ∧ ∃ field ∈ (catalog inner).fields, ∃ fault,
        field.wire (catalog inner).name = .error fault ∧ error = .schema fault ∧
          fault.record = (catalog inner).name ∧ fault.field = field.name := by
  obtain ⟨hiff, herror⟩ := hcache.dynamic_judged hquery
  refine ⟨hiff, fun error hrun => ?_⟩
  obtain ⟨fault, rfl, inner, hinner, field, hfield, hwire⟩ := herror error hrun
  exact ⟨inner, hinner, field, hfield, fault, hwire, rfl, FieldDef.names_of_wire hwire⟩

end Cache

namespace Sample

/-- An order holds an item, which holds the order and something that is not allowed. -/
def orderCatalog : Catalog 2
  | 0 => { name := "Order", fields := [⟨"item", .nested 1, .none⟩] }
  | 1 => { name := "Item", fields := [⟨"order", .nested 0, .none⟩, ⟨"sold", .bool, .none⟩] }

def orderCache : Cache 2 :=
  (((Cache.Query.fixed 0).ask orderCatalog).run (.empty 0 .standard)).2

theorem orderCache_askedUnder : orderCache.AskedUnder orderCatalog :=
  ⟨0, .standard, .single (.ask _ (.fixed 0))⟩

/-- There is no codec of orders; the error names the field that is at fault in the item. -/
theorem order_rejected :
    (((Cache.Query.dynamic 0).ask orderCatalog).run orderCache).1 =
        .error (.schema (.boolNotPermitted "Item" "sold")) ∧
      ∃ inner, orderCatalog.Reaches 0 inner ∧ (orderCatalog inner).name = "Item" := by
  have hrun : (((Cache.Query.dynamic 0).ask orderCatalog).run orderCache).1 =
      .error (.schema (.boolNotPermitted "Item" "sold")) := by with_unfolding_all rfl
  obtain ⟨-, herror⟩ := orderCache_askedUnder.accepts_exactly .dynamic
  obtain ⟨inner, hinner, _, -, _, -, hfault, hname, -⟩ := herror _ hrun
  cases hfault
  exact ⟨hrun, inner, hinner, hname.symm⟩

end Sample

/-! ## Refusals of a layout -/

/-- A fixed layout was asked for, of a record that has none. -/
inductive CodecError.RefusesLayout : CodecError → Prop
  | cyclicRecord (record : String) : RefusesLayout (.cyclicRecord record)
  | noFixedLayout (record : String) : RefusesLayout (.noFixedLayout record)

namespace Cache

variable {catalog : Catalog n} {cache after : Cache n} {record : RecordId n} {query : Query n}

/-- Only a record without a fixed size is refused, with the layout that it lacks as the reason. -/
theorem requireFixed_eq_error {schema : Schema n} {error : CodecError}
    (h : requireFixed schema = .error error) :
    schema.fixedSize = none ∧
      error = if schema.cyclic then .cyclicRecord schema.name else .noFixedLayout schema.name := by
  rw [requireFixed] at h
  cases hsize : schema.fixedSize with
  | some size => simp [hsize] at h
  | none =>
    refine ⟨rfl, ?_⟩
    cases hcyclic : schema.cyclic <;> simpa [hsize, hcyclic] using h.symm

/-- If the error refuses a layout, then the slots are still as they were, and the schema of the
record is the reason. -/
def RefusedUntouched (catalog : Catalog n) (record : RecordId n)
    (slots : Memo n (Except CodecError (SharedCore n))) (error : CodecError) (cache : Cache n) :
    Prop :=
  error.RefusesLayout → cache.slots = slots ∧
    ∃ schema, catalog.outcome record = .ok schema ∧ requireFixed schema = .error error

theorem refusedUntouched_schema {slots : Memo n (Except CodecError (SharedCore n))}
    (fault : SchemaError) (cache : Cache n) :
    RefusedUntouched catalog record slots (.schema fault) cache :=
  nofun

/-- A request for a fixed codec refuses a layout before anything is made, or not at all: the core of
a record with a fixed size has that size. -/
theorem leads_fixed_of_judged (limits : Limits) (record : RecordId n)
    (slots : Memo n (Except CodecError (SharedCore n))) :
    Leads (fun cache => cache.Judged catalog limits ∧ cache.slots = slots) (fun _ _ => True)
      (RefusedUntouched catalog record slots) (fixed catalog record) := by
  have hupholds := upholds_judges limits catalog
  have hschema : Leads (fun cache => cache.Judged catalog limits ∧ cache.slots = slots)
      (fun schema cache => (schema.record = record ∧ catalog.outcome record = .ok schema) ∧
        cache.Carries (fun registry => registry.Faithful catalog) catalog.Judges limits schema ∧
          cache.slots = slots)
      (RefusedUntouched catalog record slots) (Cache.schema catalog record) := by
    apply (leads_schema_beside_slots hupholds record slots).imp
    · rintro schema cache ⟨rfl, hcarries, hslots⟩
      have houtcome := Registry.Faithful.get?_eq_outcome hcarries.1.registry hcarries.2
      exact ⟨⟨rfl, houtcome.symm⟩, hcarries, hslots⟩
    · rintro _ cache ⟨-, fault, rfl, -⟩
      exact refusedUntouched_schema fault cache
  apply hschema.bind
  intro schema
  apply Leads.given
  rintro ⟨rfl, houtcome⟩
  have hrequire : Leads
      (fun cache => cache.Carries (fun registry => registry.Faithful catalog) catalog.Judges limits
        schema ∧ cache.slots = slots)
      (fun _ cache => requireFixed schema = .ok () ∧
        cache.Carries (fun registry => registry.Faithful catalog) catalog.Judges limits schema)
      (RefusedUntouched catalog schema.record slots)
      (ExceptT.mk (pure (requireFixed schema)) : Request n Unit) :=
    .ofExcept (fun _ hok _ h => ⟨hok, h.1⟩) fun _ herror _ h _ => ⟨h.2, schema, houtcome, herror⟩
  apply hrequire.bind
  intro _
  apply Leads.given
  intro hfixed
  have hcore : Leads
      (fun cache => cache.Carries (fun registry => registry.Faithful catalog) catalog.Judges limits
        schema)
      (fun shared _ => shared.core.fixedSize = schema.fixedSize)
      (RefusedUntouched catalog schema.record slots) (coreFor catalog schema) := by
    apply (leads_coreFor_of_upholds hupholds schema).imp
    · rintro shared _ ⟨hmade, -⟩
      cases hmade with
      | accepted _ hsize =>
        rw [hsize, Catalog.fixedSize, houtcome]
        rfl
    · rintro error cache ⟨hmade, -⟩
      cases hmade with
      | rejected => exact refusedUntouched_schema _ cache
  apply hcore.bind
  intro shared cache hsize
  rw [requireFixed] at hfixed
  cases hknown : schema.fixedSize with
  | none => cases hcyclic : schema.cyclic <;> simp [hknown, hcyclic] at hfixed
  | some size =>
    rw [FixedCodec.ofCore, hsize, hknown]
    exact ⟨fun _ _ => trivial, fun _ herror => by cases herror⟩

/-- A refused layout leaves no trace, but it does not mean that there is a dynamic codec.  Under
fixed definitions, whatever a cache was asked before: if it refuses a fixed codec because the record
reaches a cycle or varies in length, it has no slot more than before, and from then on, whatever it
is asked in between, it hands out a dynamic codec if and only if the record is accepted.  It is
accepted if its length varies; a record that reaches a cycle may nest another one with a field that
is not allowed, which only compiling meets. -/
theorem AskedUnder.dynamic_after_refusal (hcache : cache.AskedUnder catalog)
    (hquery : query.AsksFor record .fixed) {error : CodecError} (hlayout : error.RefusesLayout)
    (hrun : ((query.ask catalog).run cache).1 = .error error) :
    ((query.ask catalog).run cache).2.slots = cache.slots ∧
      ((∃ name, error = .noFixedLayout name) → catalog.Accepts record) ∧
      ∀ later, Steps catalog ((query.ask catalog).run cache).2 later →
        ∀ query' : Query n, query'.AsksFor record .dynamic →
          ((∃ codec, ((query'.ask catalog).run later).1 = .ok codec) ↔
            catalog.Accepts record) := by
  obtain ⟨limits, hjudged⟩ := hcache.judged
  have hleads : Leads (fun other => other.Judged catalog limits ∧ other.slots = cache.slots)
      (fun _ _ => True) (RefusedUntouched catalog record cache.slots) (query.ask catalog) := by
    rw [hquery.ask_eq_fixed]
    exact (leads_fixed_of_judged limits record cache.slots).map fun _ _ _ => trivial
  obtain ⟨hslots, schema, houtcome, hrequire⟩ :=
    (hleads cache ⟨hjudged, rfl⟩).2 error hrun hlayout
  refine ⟨hslots, ?_, fun later hlater query' hquery' => ?_⟩
  · rintro ⟨name, rfl⟩
    have hreason := (requireFixed_eq_error hrequire).2
    have hacyclic : schema.cyclic = false := by
      cases hcyclic : schema.cyclic with
      | false => rfl
      | true => simp [hcyclic] at hreason
    obtain ⟨_, -, hfinds⟩ := Catalog.finds_of_outcome houtcome
    refine Catalog.accepts_of_outcome (fun hcycle => ?_) houtcome
    rw [hfinds.cyclic_eq, Catalog.isInfinitelyNested_iff.2 hcycle] at hacyclic
    cases hacyclic
  · exact ((hcache.steps (.single (.ask cache query))).steps hlater).dynamic_judged hquery' |>.1

end Cache

namespace Sample

/-- Labels vary in length, so a fixed codec is refused, and then there is a dynamic one. -/
theorem label_dynamic_after_refusal :
    (((Cache.Query.fixed 0).ask catalog).run (.empty 0 .standard)).1 =
        .error (.noFixedLayout "Label") ∧
      ∃ codec, (((Cache.Query.getOrCreate .dynamic 0).ask catalog).run
        (((Cache.Query.fixed 0).ask catalog).run (.empty 0 .standard)).2).1 = .ok codec := by
  have hcache : (Cache.empty 0 .standard).AskedUnder catalog := ⟨0, .standard, .refl⟩
  have hrun : (((Cache.Query.fixed 0).ask catalog).run (.empty 0 .standard)).1 =
      .error (.noFixedLayout "Label") := rfl
  obtain ⟨-, haccepts, hlater⟩ := hcache.dynamic_after_refusal .fixed (.noFixedLayout _) hrun
  exact ⟨hrun, (hlater _ .refl _ (.getOrCreate .dynamic)).2 (haccepts ⟨_, rfl⟩)⟩

/-- Orders are refused a fixed codec because they reach a cycle, and then a dynamic one as well,
because of their item. -/
theorem order_refused_twice :
    (((Cache.Query.getOrCreate .fixed 0).ask orderCatalog).run (.empty 0 .standard)).1 =
        .error (.cyclicRecord "Order") ∧
      (((Cache.Query.getOrCreate .dynamic 0).ask orderCatalog).run
        (((Cache.Query.getOrCreate .fixed 0).ask orderCatalog).run (.empty 0 .standard)).2).1 =
        .error (.schema (.boolNotPermitted "Item" "sold")) := by
  constructor <;> with_unfolding_all rfl

end Sample

end RecordCodec
