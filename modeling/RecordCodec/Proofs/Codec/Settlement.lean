import RecordCodec.Proofs.Codec.Acceptance

/-!
# What the tables of a cache decide

A cache keeps two tables, the schemas in its registry and the outcomes in its slots.  A request
looks up a schema and serves it, so both tables decide together what it gets; and once they do,
asking changes neither.
-/

namespace RecordCodec

variable {n : Nat}

/-! ## Requests in two parts -/

namespace Codec

def ofShared (mode : CodecMode) (shared : SharedCore n) : Except CodecError (Codec n) :=
  match mode with
  | .fixed => (FixedCodec.ofCore shared).map fixed
  | .dynamic => .ok (dynamic { shared })

variable {mode : CodecMode} {shared : SharedCore n} {codec : Codec n}

theorem shared_of_ofShared (h : ofShared mode shared = .ok codec) : codec.shared = shared := by
  cases mode with
  | dynamic =>
    cases h
    rfl
  | fixed =>
    rw [ofShared, FixedCodec.ofCore] at h
    cases hsize : shared.core.fixedSize with
    | none =>
      rw [hsize] at h
      cases h
    | some size =>
      rw [hsize] at h
      cases h
      rfl

theorem mode_eq_fixed_iff : codec.mode = .fixed ↔ codec.sizeHint.isSome := by
  cases codec <;> simp [mode, sizeHint]

/-- A fixed codec where the core has a fixed size, and a dynamic one where it has none. -/
theorem exists_ofShared_eq (shared : SharedCore n) :
    ∃ codec,
      ofShared (if shared.core.fixedSize.isSome then .fixed else .dynamic) shared = .ok codec ∧
      codec.sizeHint = shared.core.fixedSize := by
  cases hsize : shared.core.fixedSize with
  | none => exact ⟨_, rfl, rfl⟩
  | some size =>
    refine ⟨.fixed { shared, size }, ?_, rfl⟩
    change (FixedCodec.ofCore shared).map fixed = _
    rw [FixedCodec.ofCore, hsize]
    rfl

end Codec

namespace Cache

variable {catalog : Catalog n} {cache after later : Cache n} {schema : Schema n}

def grant (mode : CodecMode) (schema : Schema n) : Except CodecError Unit :=
  if mode = .fixed then requireFixed schema else .ok ()

/-- What is left of a request once the schema is known. -/
def serve (catalog : Catalog n) (mode : CodecMode) (schema : Schema n) : Request n (Codec n) := do
  ExceptT.mk (pure (grant mode schema))
  let shared ← coreFor catalog schema
  ExceptT.mk (pure (Codec.ofShared mode shared))

theorem getOrCreate_eq (catalog : Catalog n) (mode : CodecMode) (record : RecordId n) :
    getOrCreate catalog mode record = Cache.schema catalog record >>= serve catalog mode := by
  rw [getOrCreate]
  refine congrArg _ (funext fun schema => ?_)
  cases mode with
  | dynamic => rfl
  | fixed =>
    rw [serve, grant]
    simp only [if_true]
    refine congrArg _ (funext fun _ => congrArg _ (funext fun shared => ?_))
    change _ = ExceptT.mk (pure ((FixedCodec.ofCore shared).map Codec.fixed))
    cases FixedCodec.ofCore shared <;> rfl

namespace Query

def record : Query n → RecordId n
  | fixed record | dynamic record | getOrCreate _ record | fixedOrDynamic record => record

/-- The mode that is asked for, if the record has the given schema. -/
def mode (schema : Schema n) : Query n → CodecMode
  | fixed _ => .fixed
  | dynamic _ => .dynamic
  | getOrCreate mode _ => mode
  | fixedOrDynamic _ => if schema.fixedSize.isSome then .fixed else .dynamic

variable {query : Query n}

/-- Up to one entry point, a request looks a schema up and serves it. -/
theorem ask_eq (h : ∀ record, query ≠ .fixedOrDynamic record) :
    query.ask catalog =
      Cache.schema catalog query.record >>= fun schema =>
        serve catalog (query.mode schema) schema := by
  cases query with
  | fixed record =>
    rw [ask, ← getOrCreate_fixed, getOrCreate_eq]
    rfl
  | dynamic record =>
    rw [ask, ← getOrCreate_dynamic, getOrCreate_eq]
    rfl
  | getOrCreate mode record => exact getOrCreate_eq catalog mode record
  | fixedOrDynamic record => exact absurd rfl (h record)

end Query

theorem schema_of_entry {record : RecordId n} {outcome : SchemaResult n}
    (hentry : cache.registry.get? record = some outcome) :
    (Cache.schema catalog record).run cache = (outcome.mapError CodecError.schema, cache) := by
  have hrun : (Registry.schema catalog record).run cache.registry = (outcome, cache.registry) := by
    change (Analysis.schemaWithin catalog (n + 1) record cache.registry).getD _ = _
    rw [Analysis.schemaWithin_of_some n hentry]
    rfl
  change (let (result, registry) := (Registry.schema catalog record).run cache.registry
    (result.mapError CodecError.schema, { cache with registry })) = _
  rw [hrun]

variable {query : Query n}

theorem run_ask_of_error {error : CodecError}
    (hschema : (Cache.schema catalog query.record).run cache = (.error error, after)) :
    (query.ask catalog).run cache = (.error error, after) := by
  by_cases hboth : ∃ record, query = .fixedOrDynamic record
  · obtain ⟨record, rfl⟩ := hboth
    exact run_bind_of_error hschema
  · rw [Query.ask_eq (not_exists.1 hboth)]
    exact run_bind_of_error hschema

/-- A second lookup of the schema finds what the first one left. -/
theorem run_ask_of_ok
    (hschema : (Cache.schema catalog query.record).run cache = (.ok schema, after))
    (hentry : after.registry.get? query.record = some (.ok schema)) :
    (query.ask catalog).run cache = (serve catalog (query.mode schema) schema).run after := by
  by_cases hboth : ∃ record, query = .fixedOrDynamic record
  · obtain ⟨record, rfl⟩ := hboth
    have hagain : (Cache.schema catalog record).run after = (.ok schema, after) :=
      schema_of_entry hentry
    apply (run_bind_of_ok hschema).trans
    rw [getOrCreate_eq]
    exact run_bind_of_ok hagain
  · rw [Query.ask_eq (not_exists.1 hboth)]
    exact run_bind_of_ok hschema

theorem run_serve_of_refused {mode : CodecMode} {error : CodecError}
    (hrefused : grant mode schema = .error error) :
    (serve catalog mode schema).run cache = (.error error, cache) := by
  apply run_bind_of_error
  rw [hrefused]
  rfl

theorem run_serve_of_granted {mode : CodecMode} {outcome : Except CodecError (SharedCore n)}
    (hgranted : grant mode schema = .ok ())
    (hcore : (coreFor catalog schema).run cache = (outcome, after)) :
    (serve catalog mode schema).run cache = (outcome >>= Codec.ofShared mode, after) := by
  have hgrant : (ExceptT.mk (pure (grant mode schema)) : Request n Unit).run cache =
      (.ok (), cache) := by
    rw [hgranted]
    rfl
  rw [serve, run_bind_of_ok hgrant]
  cases outcome with
  | error error => exact run_bind_of_error hcore
  | ok shared => exact run_bind_of_ok hcore

/-! ## What the tables decide -/

structure Extends (later cache : Cache n) : Prop where
  registry : later.registry.Extends cache.registry
  slots : later.slots.Extends cache.slots
  tag_eq : later.tag = cache.tag
  attempts_le : cache.attempts ≤ later.attempts

theorem Extends.refl (cache : Cache n) : cache.Extends cache where
  registry := .refl _
  slots := .refl _
  tag_eq := rfl
  attempts_le := Nat.le_refl _

theorem Extends.trans (h : later.Extends after) (h' : after.Extends cache) :
    later.Extends cache where
  registry := h.registry.trans h'.registry
  slots := h.slots.trans h'.slots
  tag_eq := h.tag_eq.trans h'.tag_eq
  attempts_le := Nat.le_trans h'.attempts_le h.attempts_le

/-- The entries of the tables decide what a request gets: the schema of the record may be invalid,
or it may lack the layout that is asked for, or else the slot of the record has the outcome. -/
inductive Query.Settled (cache : Cache n) (query : Query n) : Except CodecError (Codec n) → Prop
  | invalid {fault : SchemaError}
      (hentry : cache.registry.get? query.record = some (.error fault)) :
      Settled cache query (.error (.schema fault))
  | refused {schema : Schema n} {error : CodecError}
      (hentry : cache.registry.get? query.record = some (.ok schema))
      (hrefused : grant (query.mode schema) schema = .error error) :
      Settled cache query (.error error)
  | served {schema : Schema n} {outcome : Except CodecError (SharedCore n)}
      (hentry : cache.registry.get? query.record = some (.ok schema))
      (hgranted : grant (query.mode schema) schema = .ok ())
      (hslot : cache.slots.get? query.record = some outcome) :
      Settled cache query (outcome >>= Codec.ofShared (query.mode schema))

variable {outcome : Except CodecError (Codec n)}

theorem Query.Settled.mono (h : query.Settled cache outcome) (hlater : later.Extends cache) :
    query.Settled later outcome := by
  cases h with
  | invalid hentry => exact .invalid (hlater.registry _ _ hentry)
  | refused hentry hrefused => exact .refused (hlater.registry _ _ hentry) hrefused
  | served hentry hgranted hslot =>
    exact .served (hlater.registry _ _ hentry) hgranted (hlater.slots _ _ hslot)

/-- A request that is settled gets what is decided and changes nothing, whatever the definitions
are. -/
theorem Query.Settled.run_ask (h : query.Settled cache outcome) (hsound : cache.registry.Sound)
    (catalog : Catalog n) : (query.ask catalog).run cache = (outcome, cache) := by
  cases h with
  | invalid hentry => exact run_ask_of_error (schema_of_entry hentry)
  | refused hentry hrefused =>
    rw [run_ask_of_ok (schema_of_entry hentry) hentry]
    exact run_serve_of_refused hrefused
  | @served schema outcome hentry hgranted hslot =>
    have hrecord : schema.record = query.record := (hsound _ _ hentry schema rfl).record_eq
    rw [run_ask_of_ok (schema_of_entry hentry) hentry]
    exact run_serve_of_granted hgranted (coreFor_of_some (hrecord ▸ hslot))

/-- A codec that is had is one over the shared core in the slot. -/
theorem Query.Settled.slot_of_ok {codec : Codec n} (h : query.Settled cache (.ok codec)) :
    cache.slots.get? query.record = some (.ok codec.shared) := by
  generalize houtcome : Except.ok codec = outcome at h
  cases h with
  | invalid => cases houtcome
  | refused => cases houtcome
  | @served schema outcome hentry hgranted hslot =>
    cases outcome with
    | error error => cases houtcome
    | ok shared =>
      have hmade : Codec.ofShared (query.mode schema) shared = .ok codec := houtcome.symm
      rw [hslot, Codec.shared_of_ofShared hmade]

end Cache

end RecordCodec
