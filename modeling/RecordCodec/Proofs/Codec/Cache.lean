import RecordCodec.Codec.Cache
import RecordCodec.Proofs.Codec.Core
import RecordCodec.Proofs.Plan.Faults

/-!
# Codecs from a cache

A cache answers requests for codecs in any order, and its registry may be used besides.  Every codec
that it hands out wraps a generated core, and a fixed codec knows the fixed size of its core.
-/

namespace RecordCodec

variable {n : Nat}

/-- The core was generated, and the size is its fixed size. -/
structure FixedCodec.Proper (codec : FixedCodec n) : Prop where
  generated : codec.core.Generated
  fixedSize_eq : codec.core.fixedSize = some codec.size

def Codec.Proper : Codec n → Prop
  | fixed codec => codec.Proper
  | dynamic codec => codec.core.Generated

/-- The core is as promised, and a size that the codec knows is the fixed size of the core. -/
structure Codec.Wraps (made : SharedCore n → Prop) (codec : Codec n) : Prop where
  shared : made codec.shared
  fixedSize_eq : ∀ size, codec.sizeHint = some size → codec.core.fixedSize = some size

theorem Codec.Wraps.proper {codec : Codec n} (h : codec.Wraps (·.core.Generated)) :
    codec.Proper := by
  cases codec with
  | fixed codec => exact ⟨h.shared, h.fixedSize_eq codec.size rfl⟩
  | dynamic codec => exact h.shared

/-- A fixed codec looks at what the source holds before it reads. -/
theorem FixedCodec.run_decode {σ : Type} [Source σ] (types : TypeTable n) (codec : FixedCodec n)
    (source : σ) :
    (codec.decode types).run source =
      if Source.remaining source < codec.size then
        some (.error (.insufficientData codec.core.recordName codec.size
          (Source.remaining source)), source)
      else
        (do
          let values ← codec.core.decodeChecked
          Decoding.ofExcept (types.ofValues codec.core.record values) :
            Decoding σ (List Datum)).run source :=
  Decoding.run_unless_short _ _ _

namespace Cache

variable {catalog : Catalog n}

/-- The registry answered requests only, and the codecs that were made have generated cores. -/
structure Sound (cache : Cache n) : Prop where
  registry : cache.registry.Reachable
  slots : cache.slots.All fun _ outcome =>
    ∀ shared, outcome = .ok shared → shared.core.Generated

theorem schema_maintains (catalog : Catalog n) (record : RecordId n) :
    Maintains Sound Schema.Analyzed (Cache.schema catalog record) := by
  intro cache hcache
  refine ⟨⟨hcache.registry.step (.schema catalog record _), hcache.slots⟩, fun schema hrun => ?_⟩
  change ((Registry.schema catalog record).run cache.registry).1.mapError _ = _ at hrun
  cases hfound : ((Registry.schema catalog record).run cache.registry).1 with
  | error error =>
    rw [hfound] at hrun
    cases hrun
  | ok found =>
    rw [hfound] at hrun
    cases hrun
    exact .schema hcache.registry catalog record hfound

theorem coreFor_of_some {cache : Cache n} {schema : Schema n}
    {outcome : Except CodecError (SharedCore n)}
    (hget : cache.slots.get? schema.record = some outcome) :
    (coreFor catalog schema).run cache = (outcome, cache) := by
  rw [coreFor, run_get_bind, hget]
  rfl

def makeCore (catalog : Catalog n) (schema : Schema n) (cache : Cache n) :
    Except CodecError (SharedCore n) × Registry n :=
  let (made, registry) := (CoreCodec.generate catalog schema cache.limits).run cache.registry
  (made.map fun core => { cache := cache.tag, serial := cache.attempts, core }, registry)

theorem coreFor_of_none {cache : Cache n} {schema : Schema n}
    (hget : cache.slots.get? schema.record = none) :
    (coreFor catalog schema).run cache =
      let (outcome, registry) := makeCore catalog schema cache
      let (outcome, slots) := cache.slots.getOrInsert schema.record outcome
      (outcome, { cache with registry, slots, attempts := cache.attempts + 1 }) := by
  rw [coreFor, run_get_bind, hget]
  rfl

theorem coreFor_maintains (catalog : Catalog n) {schema : Schema n} (hschema : schema.Analyzed) :
    Maintains Sound (·.core.Generated) (coreFor catalog schema) := by
  intro cache hcache
  cases hget : cache.slots.get? schema.record with
  | some outcome =>
    rw [coreFor_of_some hget]
    exact ⟨hcache, hcache.slots schema.record outcome hget⟩
  | none =>
    rw [coreFor_of_none hget]
    have hmade : ∀ shared, (makeCore catalog schema cache).1 = .ok shared →
        shared.core.Generated := by
      intro shared hshared
      change ((CoreCodec.generate catalog schema cache.limits).run cache.registry).1.map _ = _
        at hshared
      cases hcore : ((CoreCodec.generate catalog schema cache.limits).run cache.registry).1 with
      | error error =>
        rw [hcore] at hshared
        cases hshared
      | ok core =>
        rw [hcore] at hshared
        cases hshared
        exact ⟨catalog, schema, cache.limits, cache.registry, hschema, hcache.registry, hcore⟩
    obtain ⟨houtcome, hslots⟩ := hcache.slots.getOrInsert hmade
    exact ⟨⟨hcache.registry.step (.generate catalog hschema cache.limits _), hslots⟩, houtcome⟩

/-! ## Runs of a cache -/

/-- A question that a cache answers with a codec. -/
inductive Query (n : Nat) where
  | fixed (record : RecordId n)
  | dynamic (record : RecordId n)
  | getOrCreate (mode : CodecMode) (record : RecordId n)
  | fixedOrDynamic (record : RecordId n)

/-- Puts the question to a cache, with the definitions as they stand then. -/
def Query.ask (catalog : Catalog n) : Query n → Request n (Codec n)
  | fixed record => Codec.fixed <$> Cache.fixed catalog record
  | dynamic record => Codec.dynamic <$> Cache.dynamic catalog record
  | getOrCreate mode record => Cache.getOrCreate catalog mode record
  | fixedOrDynamic record => Cache.fixedOrDynamic catalog record

/-- A lookup of a schema leads from `invariant` to `held`, and an attempt at its core codec back to
`invariant`, with a core that is `made`.  Either may fail into `refuses`, as ordinary errors do. -/
structure Parts (catalog : Catalog n) (invariant : Cache n → Prop)
    (held : Schema n → Cache n → Prop) (made : SharedCore n → Prop)
    (refuses : CodecError → Cache n → Prop) : Prop where
  schema : ∀ record, Leads invariant held refuses (Cache.schema catalog record)
  coreFor : ∀ schema,
    Leads (held schema) (fun shared cache => made shared ∧ invariant cache) refuses
      (Cache.coreFor catalog schema)
  invariant_of_held : ∀ {schema cache}, held schema cache → invariant cache
  refuses_of_ordinary : ∀ {error cache}, invariant cache → error.Ordinary → refuses error cache

namespace Parts

variable {invariant : Cache n → Prop} {held : Schema n → Cache n → Prop}
variable {made : SharedCore n → Prop} {refuses : CodecError → Cache n → Prop}

theorem leads_requireFixed (parts : Parts catalog invariant held made refuses)
    (schema : Schema n) :
    Leads (held schema) (fun _ => held schema) refuses
      (ExceptT.mk (pure (requireFixed schema)) : Request n Unit) := by
  refine .ofExcept (fun _ _ _ h => h) fun error heq cache h =>
    parts.refuses_of_ordinary (parts.invariant_of_held h) ?_
  rw [requireFixed] at heq
  split at heq
  · cases heq
  · split at heq <;> cases heq <;> trivial

theorem leads_ofCore (parts : Parts catalog invariant held made refuses)
    (shared : SharedCore n) :
    Leads (fun cache => made shared ∧ invariant cache)
      (fun codec cache => (Codec.fixed codec).Wraps made ∧ invariant cache) refuses
      (ExceptT.mk (pure (FixedCodec.ofCore shared)) : Request n (FixedCodec n)) := by
  rw [FixedCodec.ofCore]
  cases hsize : shared.core.fixedSize with
  | none =>
    exact .ofExcept nofun fun _ heq _ h =>
      parts.refuses_of_ordinary h.2 (Except.error.inj heq ▸ trivial)
  | some size =>
    refine .pure fun _ h => ⟨⟨h.1, fun known hknown => ?_⟩, h.2⟩
    exact hknown ▸ hsize

theorem leads_fixed (parts : Parts catalog invariant held made refuses) (record : RecordId n) :
    Leads invariant (fun codec cache => (Codec.fixed codec).Wraps made ∧ invariant cache) refuses
      (fixed catalog record) :=
  (parts.schema record).bind fun schema => (parts.leads_requireFixed schema).bind fun _ =>
    (parts.coreFor schema).bind parts.leads_ofCore

theorem leads_dynamic (parts : Parts catalog invariant held made refuses)
    (record : RecordId n) :
    Leads invariant (fun codec cache => (Codec.dynamic codec).Wraps made ∧ invariant cache) refuses
      (dynamic catalog record) :=
  (parts.schema record).bind fun schema => (parts.coreFor schema).bind fun _ =>
    .pure fun _ h => ⟨⟨h.1, nofun⟩, h.2⟩

theorem leads_getOrCreate (parts : Parts catalog invariant held made refuses)
    (mode : CodecMode) (record : RecordId n) :
    Leads invariant (fun codec cache => codec.Wraps made ∧ invariant cache) refuses
      (getOrCreate catalog mode record) := by
  apply (parts.schema record).bind
  intro schema
  cases mode with
  | fixed =>
    exact (parts.leads_requireFixed schema).bind fun _ => (parts.coreFor schema).bind fun shared =>
      (parts.leads_ofCore shared).bind fun _ => .pure fun _ h => h
  | dynamic =>
    exact (parts.coreFor schema).bind fun _ => .pure fun _ h => ⟨⟨h.1, nofun⟩, h.2⟩

/-- So every question is answered with a codec over a core that is `made`, and `invariant` stays. -/
theorem leads_ask (parts : Parts catalog invariant held made refuses) (query : Query n) :
    Leads invariant (fun codec cache => codec.Wraps made ∧ invariant cache) refuses
      (query.ask catalog) := by
  cases query with
  | fixed record => exact (parts.leads_fixed record).map fun _ _ h => h
  | dynamic record => exact (parts.leads_dynamic record).map fun _ _ h => h
  | getOrCreate mode record => exact parts.leads_getOrCreate mode record
  | fixedOrDynamic record =>
    exact (parts.schema record).bind fun _ =>
      (parts.leads_getOrCreate _ record).of_imp fun _ h => parts.invariant_of_held h

end Parts

theorem Sound.parts (catalog : Catalog n) :
    Parts catalog Sound (fun schema cache => schema.Analyzed ∧ cache.Sound) (·.core.Generated)
      (fun _ => Sound) where
  schema record := maintains_iff_leads.1 (schema_maintains catalog record)
  coreFor _ := .given fun hschema => maintains_iff_leads.1 (coreFor_maintains catalog hschema)
  invariant_of_held h := h.2
  refuses_of_ordinary h _ := h

/-- The cache was empty once, and was asked questions since; its registry answered requests of its
own in between. -/
inductive Reachable : Cache n → Prop where
  | empty (tag : Nat) (limits : Limits) : Reachable (.empty tag limits)
  | registry {cache : Cache n} {after : Registry n} (h : Reachable cache)
      (hstep : Registry.Step cache.registry after) : Reachable { cache with registry := after }
  | ask {cache : Cache n} (h : Reachable cache) (catalog : Catalog n) (query : Query n) :
      Reachable ((query.ask catalog).run cache).2

theorem Reachable.sound {cache : Cache n} (h : cache.Reachable) : cache.Sound := by
  induction h with
  | empty => exact ⟨.empty, Memo.all_empty⟩
  | registry _ hstep ih => exact ⟨ih.registry.step hstep, ih.slots⟩
  | ask _ catalog query ih =>
    exact ((Sound.parts catalog).leads_ask query).holds_after (fun _ _ h => h.2) (fun _ _ h => h) ih

end Cache

/-- The codec was the answer of some cache. -/
def Codec.Issued (codec : Codec n) : Prop :=
  ∃ cache catalog, ∃ query : Cache.Query n, cache.Reachable ∧
    ((query.ask catalog).run cache).1 = .ok codec

theorem Codec.Issued.proper {codec : Codec n} (h : codec.Issued) : codec.Proper := by
  obtain ⟨cache, catalog, query, hcache, hrun⟩ := h
  exact (((Cache.Sound.parts catalog).leads_ask query cache hcache.sound).1 codec hrun).1.proper

theorem Codec.Issued.wellFormed {codec : Codec n} (h : codec.Issued) :
    codec.core.program.WellFormed := by
  have hcodec := h.proper
  cases codec with
  | fixed codec => exact hcodec.generated.wellFormed
  | dynamic codec => exact CoreCodec.Generated.wellFormed hcodec

end RecordCodec
