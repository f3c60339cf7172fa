import RecordCodec.Proofs.Codec.Cache
import RecordCodec.Proofs.Plan.Widths

/-!
# What a cache keeps up

Take an invariant of registries that analysis keeps, and a property that generating from an entry of
such a registry gives to the outcome, be it a core codec or an error.  Then a cache keeps both, the
one of its registry and the other of its slots, whatever it is asked.
-/

namespace RecordCodec

variable {n : Nat} {invariant : Registry n → Prop}
variable {made : RecordId n → Except CodecError (CoreCodec n) → Prop} {limits : Limits}

/-- The registry satisfies `invariant`, and the schema is one of its entries. -/
def Registry.Carries (invariant : Registry n → Prop) (schema : Schema n) (registry : Registry n) :
    Prop :=
  invariant registry ∧ registry.get? schema.record = some (.ok schema)

theorem Registry.admits_carries {catalog : Catalog n} (hadmits : Analysis.Admits invariant catalog)
    (schema : Schema n) : Analysis.Admits (Carries invariant schema) catalog :=
  fun registry record outcome hregistry hexplains =>
    ⟨hadmits registry record outcome hregistry.1 hexplains,
      Memo.extends_getOrInsert registry record outcome _ _ hregistry.2⟩

/-- A request to a registry keeps what analysis keeps. -/
theorem Registry.Step.keeps (hadmits : ∀ catalog, Analysis.Admits invariant catalog)
    (hsound : ∀ registry, invariant registry → registry.Sound) {registry after : Registry n}
    (h : Registry.Step registry after) (hregistry : invariant registry) : invariant after := by
  cases h with
  | schema catalog record =>
    obtain ⟨_, after, hrun, hafter, -⟩ := run_schema (hadmits catalog) hregistry record
    rwa [hrun]
  | analyze catalog record =>
    obtain ⟨_, after, hrun, hafter, -⟩ := run_analyze (hadmits catalog) hregistry record
    rwa [hrun]
  | generate catalog hschema limits =>
    exact (CoreCodec.leads_generate (hadmits catalog) hsound _ limits).holds_after
      (fun _ _ ⟨_, _, _, _, hflattens⟩ => hflattens.sound.holds) (fun _ _ h => h.1) hregistry

/-- With the definitions of `catalog`, analysis keeps `invariant`, and so does generating from an
entry of the registry, whose outcome is as `made` says. -/
structure Upholds (invariant : Registry n → Prop)
    (made : RecordId n → Except CodecError (CoreCodec n) → Prop) (limits : Limits)
    (catalog : Catalog n) : Prop where
  admits : Analysis.Admits invariant catalog
  sound : ∀ registry, invariant registry → registry.Sound
  generate : ∀ schema : Schema n, Leads (Registry.Carries invariant schema)
    (fun core registry => made schema.record (.ok core) ∧ invariant registry)
    (fun error registry => made schema.record (.error error) ∧ invariant registry)
    (CoreCodec.generate catalog schema limits)

/-- If the entries of the registry come from analyses, then generating from one of them fails only
at a record without a schema.  So there are two cases to see about. -/
theorem upholds_of_generated {catalog : Catalog n} {allowed : Catalog n → Prop}
    (hadmits : Analysis.Admits invariant catalog)
    (hcoherent : ∀ registry, invariant registry → registry.Coherent allowed)
    (hok : ∀ {schema core found registry}, core.limits = limits →
      core.program.Flattens (Registry.Carries invariant schema) schema found registry →
        made schema.record (.ok core))
    (herror : ∀ {schema error registry},
      PlanQueue.Unanalyzed (Registry.Carries invariant schema) schema error registry →
        made schema.record (.error error)) :
    Upholds invariant made limits catalog where
  admits := hadmits
  sound registry hregistry := (hcoherent registry hregistry).sound
  generate schema := by
    have hgenerate := CoreCodec.leads_generate (Registry.admits_carries hadmits schema)
      (fun registry h => (hcoherent registry h.1).sound) schema limits
    apply hgenerate.imp
    · rintro core registry ⟨-, hlimits, -, found, hflattens⟩
      exact ⟨hok hlimits hflattens, hflattens.sound.holds.1⟩
    · rintro error registry ⟨⟨hregistry, hroot⟩, hfault | ⟨_, _, hflattens, hverify⟩⟩
      · exact ⟨herror hfault, hregistry⟩
      · -- Plans of entries of the registry add up.
        cases hverify.symm.trans (hflattens.verify_eq_ok (hcoherent registry hregistry) hroot)

namespace Cache

/-- The registry satisfies `invariant`, and every slot holds an outcome as `made` says, for the
limits of the cache. -/
structure Keeps (invariant : Registry n → Prop)
    (made : RecordId n → Except CodecError (CoreCodec n) → Prop) (limits : Limits)
    (cache : Cache n) : Prop where
  registry : invariant cache.registry
  limits_eq : cache.limits = limits
  slots : cache.slots.All fun record outcome => made record (outcome.map (·.core))

/-- The cache keeps up `invariant` and `made`, and its registry has the schema as an entry. -/
def Carries (invariant : Registry n → Prop)
    (made : RecordId n → Except CodecError (CoreCodec n) → Prop) (limits : Limits)
    (schema : Schema n) (cache : Cache n) : Prop :=
  cache.Keeps invariant made limits ∧ cache.registry.get? schema.record = some (.ok schema)

theorem keeps_empty (hempty : invariant .empty) (tag : Nat) :
    Keeps invariant made limits (.empty tag limits) :=
  ⟨hempty, rfl, Memo.all_empty⟩

theorem map_core_fst_makeCore (catalog : Catalog n) (schema : Schema n) (cache : Cache n) :
    (makeCore catalog schema cache).1.map (·.core) =
      ((CoreCodec.generate catalog schema cache.limits).run cache.registry).1 := by
  rw [makeCore]
  generalize (CoreCodec.generate catalog schema cache.limits).run cache.registry = result
  rcases result with ⟨outcome, registry⟩
  cases outcome <;> rfl

section

variable {catalog : Catalog n} (h : Upholds invariant made limits catalog)
include h

/-- A schema is looked up in the registry, which has it as an entry then, or its error; the slots
stay as they are. -/
theorem leads_schema_beside_slots (record : RecordId n)
    (slots : Memo n (Except CodecError (SharedCore n))) :
    Leads (fun cache => cache.Keeps invariant made limits ∧ cache.slots = slots)
      (fun schema cache => schema.record = record ∧ cache.Carries invariant made limits schema ∧
        cache.slots = slots)
      (fun error cache => cache.Keeps invariant made limits ∧
        ∃ fault, error = .schema fault ∧ cache.registry.get? record = some (.error fault))
      (Cache.schema catalog record) := by
  rintro cache ⟨hcache, hslots⟩
  obtain ⟨outcome, after, hrun, hafter, -, hget⟩ :=
    Registry.run_schema h.admits hcache.registry record
  have hschema : (Cache.schema catalog record).run cache =
      (outcome.mapError CodecError.schema, { cache with registry := after }) := by
    change (let (result, registry) := (Registry.schema catalog record).run cache.registry
      (result.mapError CodecError.schema, { cache with registry })) = _
    rw [hrun]
  have hkept : Keeps invariant made limits { cache with registry := after } :=
    ⟨hafter, hcache.limits_eq, hcache.slots⟩
  rw [hschema]
  cases outcome with
  | error fault =>
    exact ⟨nofun, fun error heq => ⟨hkept, fault, (Except.error.inj heq).symm, hget⟩⟩
  | ok schema =>
    refine ⟨fun found heq => ?_, nofun⟩
    obtain rfl : schema = found := Except.ok.inj heq
    have hrecord : schema.record = record :=
      (h.sound after hafter record _ hget schema rfl).record_eq
    exact ⟨hrecord, ⟨hkept, hrecord ▸ hget⟩, hslots⟩

theorem leads_schema_of_upholds (record : RecordId n) :
    Leads (Keeps invariant made limits)
      (fun schema cache => schema.record = record ∧ cache.Carries invariant made limits schema)
      (fun error cache => cache.Keeps invariant made limits ∧
        ∃ fault, error = .schema fault ∧ cache.registry.get? record = some (.error fault))
      (Cache.schema catalog record) := by
  intro cache hcache
  obtain ⟨hok, herror⟩ := leads_schema_beside_slots h record cache.slots cache ⟨hcache, rfl⟩
  exact ⟨fun schema heq => (hok schema heq).imp_right And.left, herror⟩

/-- An attempt at a core codec has the outcome that its slot holds from then on. -/
theorem leads_coreFor_of_upholds (schema : Schema n) :
    Leads (Carries invariant made limits schema)
      (fun shared cache => made schema.record (.ok shared.core) ∧
        cache.Keeps invariant made limits)
      (fun error cache => made schema.record (.error error) ∧ cache.Keeps invariant made limits)
      (coreFor catalog schema) := by
  rintro cache ⟨hcache, hentry⟩
  have hdone : made schema.record (((coreFor catalog schema).run cache).1.map (·.core)) ∧
      ((coreFor catalog schema).run cache).2.Keeps invariant made limits := by
    cases hget : cache.slots.get? schema.record with
    | some outcome =>
      rw [coreFor_of_some hget]
      exact ⟨hcache.slots _ _ hget, hcache⟩
    | none =>
      have hgenerate := h.generate schema cache.registry ⟨hcache.registry, hentry⟩
      rw [← hcache.limits_eq] at hgenerate
      have hmade : made schema.record ((makeCore catalog schema cache).1.map (·.core)) ∧
          invariant (makeCore catalog schema cache).2 := by
        rw [map_core_fst_makeCore]
        change _ ∧ invariant ((CoreCodec.generate catalog schema cache.limits).run cache.registry).2
        cases houtcome :
            ((CoreCodec.generate catalog schema cache.limits).run cache.registry).1 with
        | ok core => exact hgenerate.1 core houtcome
        | error error => exact hgenerate.2 error houtcome
      obtain ⟨hslot, hslots⟩ := hcache.slots.getOrInsert hmade.1
      rw [coreFor_of_none hget]
      exact ⟨hslot, hmade.2, hcache.limits_eq, hslots⟩
  constructor
  · intro shared heq
    rw [heq] at hdone
    exact hdone
  · intro error heq
    rw [heq] at hdone
    exact hdone

/-- A dynamic codec wraps what was made for its record.  If there is none, that is due to the schema
of the record, or to what was met in the attempt at a core codec. -/
theorem leads_dynamic_of_upholds (record : RecordId n) :
    Leads (Keeps invariant made limits) (fun codec _ => made record (.ok codec.core))
      (fun error cache => made record (.error error) ∨ cache.Keeps invariant made limits ∧
        ∃ fault, error = .schema fault ∧ cache.registry.get? record = some (.error fault))
      (dynamic catalog record) := by
  apply ((leads_schema_of_upholds h record).imp (fun _ _ h => h) fun _ _ => Or.inr).bind
  intro schema
  apply Leads.given
  rintro rfl
  apply ((leads_coreFor_of_upholds h schema).imp (fun _ _ => And.left) fun _ _ herror =>
    Or.inl herror.1).bind
  exact fun _ => .pure fun _ hmade => hmade

/-- So all requests to the cache keep it up, and refuse with an ordinary error or with one that an
attempt at a core codec met. -/
theorem parts_of_upholds {allowed : CodecError → Prop}
    (hordinary : ∀ error, error.Ordinary → allowed error)
    (hmade : ∀ record error, made record (.error error) → allowed error) :
    Parts catalog (Keeps invariant made limits) (Carries invariant made limits)
      (fun shared => ∃ record, made record (.ok shared.core))
      (fun error cache => cache.Keeps invariant made limits ∧ allowed error) where
  schema record := by
    apply (leads_schema_of_upholds h record).imp
    · exact fun _ _ hschema => hschema.2
    · rintro _ cache ⟨hcache, fault, rfl, -⟩
      exact ⟨hcache, hordinary _ trivial⟩
  coreFor schema := by
    apply (leads_coreFor_of_upholds h schema).imp
    · exact fun _ _ hcore => ⟨⟨_, hcore.1⟩, hcore.2⟩
    · exact fun error _ herror => ⟨herror.2, hmade _ error herror.1⟩
  invariant_of_held hcarries := hcarries.1
  refuses_of_ordinary hcache herror := ⟨hcache, hordinary _ herror⟩

end

/-- A question leaves what is kept up. -/
theorem Keeps.ask {cache : Cache n} (hcache : cache.Keeps invariant made limits)
    {catalog : Catalog n} (h : Upholds invariant made limits catalog) (query : Query n) :
    ((query.ask catalog).run cache).2.Keeps invariant made limits := by
  have hparts := parts_of_upholds h (fun _ _ => trivial) (fun _ _ _ => trivial)
  exact (hparts.leads_ask query).holds_after (fun _ _ h => h.2) (fun _ _ h => h.1) hcache

/-- A cache that was empty once keeps up what is upheld with any definitions. -/
theorem Reachable.keeps {made : Limits → RecordId n → Except CodecError (CoreCodec n) → Prop}
    {cache : Cache n} (h : cache.Reachable) (hempty : invariant .empty)
    (hupholds : ∀ limits catalog, Upholds invariant (made limits) limits catalog) :
    cache.Keeps invariant (made cache.limits) cache.limits := by
  induction h with
  | empty tag limits => exact keeps_empty hempty tag
  | @registry cache _ _ hstep ih =>
    have hsound := (hupholds cache.limits fun _ => { name := "", fields := [] }).sound
    have hregistry := hstep.keeps (fun catalog => (hupholds cache.limits catalog).admits) hsound
      ih.registry
    exact ⟨hregistry, rfl, ih.slots⟩
  | @ask cache _ catalog query ih =>
    have hafter := ih.ask (hupholds cache.limits catalog) query
    rw [hafter.limits_eq]
    exact hafter

end Cache

end RecordCodec
