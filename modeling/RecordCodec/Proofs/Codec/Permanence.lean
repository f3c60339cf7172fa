import RecordCodec.Proofs.Codec.Settlement
import RecordCodec.Proofs.Layout.Ranks

/-!
# Requests are settled for good

A request that was answered is decided by the tables of the cache from then on, since no entry of
them is ever replaced, whatever becomes of the definitions.  Behind every slot stands a schema in
the registry, and every slot was filled by one attempt at a core codec of its own.
-/

namespace RecordCodec

variable {n : Nat}

namespace Cache

variable {cache after later : Cache n}

/-! ## What the tables hold -/

/-- A schema stands behind the outcome in a slot: a core that was made has the fixed size of the
schema and a number below the count of attempts, and an attempt failed only at another schema. -/
inductive Backs (cache : Cache n) (record : RecordId n) : Except CodecError (SharedCore n) → Prop
  | made {schema : Schema n} {shared : SharedCore n}
      (hentry : cache.registry.get? record = some (.ok schema))
      (hsize : shared.core.fixedSize = schema.fixedSize) (htag : shared.cache = cache.tag)
      (hserial : shared.serial < cache.attempts) : Backs cache record (.ok shared)
  | failed {schema : Schema n} {fault : SchemaError}
      (hentry : cache.registry.get? record = some (.ok schema)) :
      Backs cache record (.error (.schema fault))

theorem Backs.mono {record : RecordId n} {outcome : Except CodecError (SharedCore n)}
    (h : cache.Backs record outcome) (hlater : later.Extends cache) :
    later.Backs record outcome := by
  cases h with
  | made hentry hsize htag hserial =>
    exact .made (hlater.registry _ _ hentry) hsize (htag.trans hlater.tag_eq.symm)
      (Nat.lt_of_lt_of_le hserial hlater.attempts_le)
  | failed hentry => exact .failed (hlater.registry _ _ hentry)

/-- Every slot is backed by a schema, no two have the same number, and there is one for each record
in `attempted`, filled by one attempt. -/
structure Tallied (attempted : Finset (RecordId n)) (cache : Cache n) : Prop where
  registry : cache.registry.Coherent fun _ => True
  slots : cache.slots.All cache.Backs
  apart : ∀ {record record' : RecordId n} {shared shared' : SharedCore n},
    cache.slots.get? record = some (.ok shared) → cache.slots.get? record' = some (.ok shared') →
    shared.serial = shared'.serial → record = record'
  mem_iff : ∀ record, record ∈ attempted ↔ ∃ outcome, cache.slots.get? record = some outcome
  size_eq : cache.size = attempted.card
  attempts_eq : cache.attempts = attempted.card

theorem tallied_empty (tag : Nat) (limits : Limits) : (empty tag limits : Cache n).Tallied ∅ where
  registry := Registry.coherent_empty _
  slots := Memo.all_empty
  apart hget := nomatch hget
  mem_iff record := by simp [empty]
  size_eq := rfl
  attempts_eq := rfl

variable {attempted : Finset (RecordId n)}

/-- What happens in the registry does not touch the slots. -/
theorem Tallied.withRegistry (h : cache.Tallied attempted) {registry : Registry n}
    (hregistry : registry.Coherent fun _ => True) (hextends : registry.Extends cache.registry) :
    Extends { cache with registry } cache ∧ Tallied attempted { cache with registry } := by
  have hlater : Extends { cache with registry } cache := ⟨hextends, .refl _, rfl, Nat.le_refl _⟩
  refine ⟨hlater, { h with registry := hregistry, slots := ?_ }⟩
  exact fun record outcome hget => (h.slots record outcome hget).mono hlater

/-- The first outcome for a record goes into a new slot, with the number of the attempt. -/
theorem Tallied.insert (h : cache.Tallied attempted) {record : RecordId n}
    {outcome : Except CodecError (SharedCore n)} (hnew : cache.slots.get? record = none)
    (hlater : after = { cache with
      slots := (cache.slots.getOrInsert record outcome).2, attempts := cache.attempts + 1 })
    (hserial : ∀ shared, outcome = .ok shared → shared.serial = cache.attempts)
    (hbacks : after.Backs record outcome) :
    after.Extends cache ∧ after.Tallied (Insert.insert record attempted) := by
  subst hlater
  have hget (other : RecordId n) : (cache.slots.getOrInsert record outcome).2.get? other =
      if other = record then some outcome else cache.slots.get? other := by
    rw [Memo.get?_getOrInsert, hnew, Option.getD_none]
  have hextends : Extends { cache with
      slots := (cache.slots.getOrInsert record outcome).2, attempts := cache.attempts + 1 } cache :=
    ⟨.refl _, Memo.extends_getOrInsert _ _ _, rfl, Nat.le_succ _⟩
  have hmem : record ∉ attempted := fun hrecord => by
    obtain ⟨_, hslot⟩ := (h.mem_iff record).1 hrecord
    cases hnew.symm.trans hslot
  have hearlier {other : RecordId n} {shared : SharedCore n}
      (hother : cache.slots.get? other = some (.ok shared)) : shared.serial < cache.attempts := by
    cases h.slots _ _ hother with
    | made _ _ _ hserial => exact hserial
  refine ⟨hextends, h.registry, fun other found hfound => ?_, ?_, fun other => ?_, ?_, ?_⟩
  · change (cache.slots.getOrInsert record outcome).2.get? other = some found at hfound
    rw [hget] at hfound
    by_cases hother : other = record
    · rw [if_pos hother] at hfound
      cases hfound
      exact hother ▸ hbacks
    · rw [if_neg hother] at hfound
      exact (h.slots other found hfound).mono hextends
  · intro first second shared shared' hfirst hsecond heq
    change (cache.slots.getOrInsert record outcome).2.get? first = _ at hfirst
    change (cache.slots.getOrInsert record outcome).2.get? second = _ at hsecond
    rw [hget] at hfirst hsecond
    by_cases hleft : first = record <;> by_cases hright : second = record
    · rw [hleft, hright]
    · rw [if_pos hleft] at hfirst
      rw [if_neg hright] at hsecond
      have hnumber := hserial shared (Option.some.inj hfirst)
      have hbefore := hearlier hsecond
      omega
    · rw [if_neg hleft] at hfirst
      rw [if_pos hright] at hsecond
      have hnumber := hserial shared' (Option.some.inj hsecond)
      have hbefore := hearlier hfirst
      omega
    · rw [if_neg hleft] at hfirst
      rw [if_neg hright] at hsecond
      exact h.apart hfirst hsecond heq
  · change other ∈ Insert.insert record attempted ↔
      ∃ found, (cache.slots.getOrInsert record outcome).2.get? other = some found
    rw [Finset.mem_insert, h.mem_iff, hget]
    by_cases hother : other = record <;> simp [hother]
  · rw [Finset.card_insert_of_notMem hmem, ← h.size_eq]
    exact Memo.size_getOrInsert_of_none hnew
  · rw [Finset.card_insert_of_notMem hmem, ← h.attempts_eq]

end Cache

/-! ## What a request does to the tables -/

namespace Registry

/-- Analysis keeps the registry coherent, and every entry of `base`. -/
theorem admits_coherent_extends (base : Registry n) (catalog : Catalog n) :
    Analysis.Admits (fun registry => registry.Coherent (fun _ => True) ∧ registry.Extends base)
      catalog :=
  fun registry record outcome hregistry hexplains =>
    ⟨admits_coherent trivial registry record outcome hregistry.1 hexplains,
      (Memo.extends_getOrInsert registry record outcome).trans hregistry.2⟩

theorem Step.coherent_extends {registry after : Registry n} (h : Registry.Step registry after)
    (hregistry : registry.Coherent fun _ => True) :
    after.Coherent (fun _ => True) ∧ after.Extends registry :=
  h.keeps (admits_coherent_extends registry) (fun _ h => h.1.sound) ⟨hregistry, .refl registry⟩

/-- A core that was made has the fixed size of the schema that `base` has of its record, and an
attempt fails only at another schema. -/
inductive Sizes (base : Registry n) (record : RecordId n) : Except CodecError (CoreCodec n) → Prop
  | made {core : CoreCodec n}
      (hsize : ∀ schema, base.get? record = some (.ok schema) → core.fixedSize = schema.fixedSize) :
      Sizes base record (.ok core)
  | failed {fault : SchemaError} : Sizes base record (.error (.schema fault))

theorem upholds_sizes (base : Registry n) (limits : Limits) (catalog : Catalog n) :
    Upholds (fun registry => registry.Coherent (fun _ => True) ∧ registry.Extends base) base.Sizes
      limits catalog := by
  apply upholds_of_generated (admits_coherent_extends base catalog) fun _ hregistry => hregistry.1
  · intro schema core found registry _ hflattens
    refine .made fun other hother => ?_
    obtain ⟨⟨-, hextends⟩, hentry⟩ := hflattens.sound.holds
    obtain rfl : other = schema :=
      Except.ok.inj (Option.some.inj ((hextends _ _ hother).symm.trans hentry))
    exact (hflattens.mirrors hflattens.sound.first).fixedSize_eq
  · rintro schema _ registry ⟨_, _, fault, -, -, -, rfl⟩
    exact .failed

end Registry

namespace Cache

variable {cache after later : Cache n} {schema : Schema n} {attempted : Finset (RecordId n)}

/-- An attempt keeps every schema; it makes a core of the size of its own, with the next number, or
fails at another. -/
theorem exists_makeCore (hregistry : cache.registry.Coherent fun _ => True)
    (hentry : cache.registry.get? schema.record = some (.ok schema)) (catalog : Catalog n) :
    ∃ outcome registry, makeCore catalog schema cache = (outcome, registry) ∧
      registry.Coherent (fun _ => True) ∧ registry.Extends cache.registry ∧
      (∀ shared, outcome = .ok shared → shared.core.fixedSize = schema.fixedSize ∧
        shared.cache = cache.tag ∧ shared.serial = cache.attempts) ∧
      ∀ error, outcome = .error error → ∃ fault, error = .schema fault := by
  have hupholds := Registry.upholds_sizes cache.registry cache.limits catalog
  obtain ⟨hok, herror⟩ :=
    hupholds.generate schema cache.registry ⟨⟨hregistry, .refl cache.registry⟩, hentry⟩
  cases hrun : (CoreCodec.generate catalog schema cache.limits).run cache.registry with
  | mk made registry =>
    have hmake : makeCore catalog schema cache =
        (made.map fun core => { cache := cache.tag, serial := cache.attempts, core },
          registry) := by
      rw [makeCore, hrun]
    rw [hrun] at hok herror
    cases made with
    | ok core =>
      obtain ⟨hsizes, hcoherent, hextends⟩ := hok core rfl
      cases hsizes with
      | made hsize =>
        refine ⟨_, registry, hmake, hcoherent, hextends, fun shared heq => ?_, fun error heq => ?_⟩
        · cases heq
          exact ⟨hsize schema hentry, rfl, rfl⟩
        · cases heq
    | error error =>
      obtain ⟨hsizes, hcoherent, hextends⟩ := herror error rfl
      cases hsizes with
      | failed =>
        refine ⟨_, registry, hmake, hcoherent, hextends, fun shared heq => ?_, fun error heq => ?_⟩
        · cases heq
        · cases heq
          exact ⟨_, rfl⟩

/-- A core that is asked for is in its slot then. -/
theorem Tallied.coreFor (h : cache.Tallied attempted)
    (hentry : cache.registry.get? schema.record = some (.ok schema)) (catalog : Catalog n) :
    ∃ outcome after, (Cache.coreFor catalog schema).run cache = (outcome, after) ∧
      after.Extends cache ∧ after.Tallied (Insert.insert schema.record attempted) ∧
      after.slots.get? schema.record = some outcome := by
  cases hslot : cache.slots.get? schema.record with
  | some outcome =>
    refine ⟨outcome, cache, coreFor_of_some hslot, .refl cache, ?_, hslot⟩
    rwa [Finset.insert_eq_of_mem ((h.mem_iff _).2 ⟨outcome, hslot⟩)]
  | none =>
    obtain ⟨outcome, registry, hmake, hcoherent, hextends, hok, herror⟩ :=
      exists_makeCore h.registry hentry catalog
    obtain ⟨hreached, htallied⟩ := h.withRegistry hcoherent hextends
    have hentered : registry.get? schema.record = some (.ok schema) := hextends _ _ hentry
    have hbacks : Backs { cache with
        registry, slots := (cache.slots.getOrInsert schema.record outcome).2,
        attempts := cache.attempts + 1 } schema.record outcome := by
      cases outcome with
      | ok shared =>
        obtain ⟨hsize, htag, hserial⟩ := hok shared rfl
        exact .made hentered hsize htag (hserial ▸ Nat.lt_succ_self cache.attempts)
      | error error =>
        obtain ⟨fault, rfl⟩ := herror error rfl
        exact .failed hentered
    obtain ⟨hlater, hinserted⟩ :=
      htallied.insert hslot rfl (fun shared heq => (hok shared heq).2.2) hbacks
    refine ⟨outcome, _, ?_, hlater.trans hreached, hinserted, ?_⟩
    · rw [coreFor_of_none hslot, hmake]
      exact congrArg (·, _) ((Memo.fst_getOrInsert _ _ _).trans (by rw [hslot, Option.getD_none]))
    · change (cache.slots.getOrInsert schema.record outcome).2.get? schema.record = _
      rw [Memo.get?_getOrInsert, if_pos rfl, hslot, Option.getD_none]

/-- A lookup of a schema leaves it as an entry. -/
theorem Tallied.lookup (h : cache.Tallied attempted) (catalog : Catalog n) (record : RecordId n) :
    ∃ outcome after, ((Registry.schema catalog record).run cache.registry).1 = outcome ∧
      (Cache.schema catalog record).run cache = (outcome.mapError CodecError.schema, after) ∧
      after.Extends cache ∧ after.Tallied attempted ∧ after.slots = cache.slots ∧
      after.registry.get? record = some outcome := by
  obtain ⟨outcome, registry, hrun, ⟨hcoherent, hextends⟩, -, hentry⟩ :=
    Registry.run_schema (Registry.admits_coherent_extends cache.registry catalog)
      ⟨h.registry, .refl cache.registry⟩ record
  obtain ⟨hlater, htallied⟩ := h.withRegistry hcoherent hextends
  refine ⟨outcome, _, congrArg Prod.fst hrun, ?_, hlater, htallied, rfl, hentry⟩
  change (let (result, registry) := (Registry.schema catalog record).run cache.registry
    (result.mapError CodecError.schema, { cache with registry })) = _
  rw [hrun]

/-- The record has a schema, and it allows the layout that is asked for. -/
def Query.Proceeds (catalog : Catalog n) (cache : Cache n) (query : Query n) : Prop :=
  ∃ schema, ((Registry.schema catalog query.record).run cache.registry).1 = .ok schema ∧
    grant (query.mode schema) schema = .ok ()

/-- A request is settled when it is answered.  Only one that proceeds can fill a slot, that of its
record. -/
theorem Tallied.ask (h : cache.Tallied attempted) (catalog : Catalog n) (query : Query n) :
    ∃ outcome after, (query.ask catalog).run cache = (outcome, after) ∧ after.Extends cache ∧
      query.Settled after outcome ∧
      (query.Proceeds catalog cache → after.Tallied (Insert.insert query.record attempted)) ∧
      (¬ query.Proceeds catalog cache → after.Tallied attempted ∧ after.slots = cache.slots) := by
  obtain ⟨found, reached, hfound, hschema, hreached, htallied, hslots, hentry⟩ :=
    h.lookup catalog query.record
  cases found with
  | error fault =>
    refine ⟨_, reached, run_ask_of_error hschema, hreached, .invalid hentry, ?_,
      fun _ => ⟨htallied, hslots⟩⟩
    rintro ⟨schema, hok, -⟩
    cases hfound.symm.trans hok
  | ok schema =>
    have hrun : (query.ask catalog).run cache = _ := run_ask_of_ok hschema hentry
    have hrecord : schema.record = query.record :=
      (htallied.registry.sound _ _ hentry schema rfl).record_eq
    cases hgrant : grant (query.mode schema) schema with
    | error error =>
      refine ⟨_, reached, hrun.trans (run_serve_of_refused hgrant), hreached,
        .refused hentry hgrant, ?_, fun _ => ⟨htallied, hslots⟩⟩
      rintro ⟨other, hok, hgranted⟩
      obtain rfl : schema = other := Except.ok.inj (hfound.symm.trans hok)
      cases hgrant.symm.trans hgranted
    | ok _ =>
      obtain ⟨outcome, after, hcore, hafter, hinserted, hslot⟩ :=
        htallied.coreFor (hrecord ▸ hentry) catalog
      rw [hrecord] at hinserted hslot
      refine ⟨_, after, hrun.trans (run_serve_of_granted hgrant hcore), hafter.trans hreached,
        .served (hafter.registry _ _ hentry) hgrant hslot, fun _ => hinserted, fun hrefused => ?_⟩
      exact absurd ⟨schema, hfound, hgrant⟩ hrefused

/-! ## Histories of a cache -/

/-- One request to a cache, or to its registry, with whatever definitions there are then. -/
inductive Advances : Cache n → Cache n → Prop
  | registry {cache : Cache n} {after : Registry n} (hstep : Registry.Step cache.registry after) :
      Advances cache { cache with registry := after }
  | ask (cache : Cache n) (catalog : Catalog n) (query : Query n) :
      Advances cache ((query.ask catalog).run cache).2

/-- The cache was empty once, and of the requests that it was asked since, those for the records in
`attempted` proceeded to a core codec. -/
inductive History : Finset (RecordId n) → Cache n → Prop
  | empty (tag : Nat) (limits : Limits) : History ∅ (.empty tag limits)
  | registry {attempted : Finset (RecordId n)} {cache : Cache n} {after : Registry n}
      (h : History attempted cache) (hstep : Registry.Step cache.registry after) :
      History attempted { cache with registry := after }
  | proceed {attempted : Finset (RecordId n)} {cache : Cache n} (h : History attempted cache)
      {catalog : Catalog n} {query : Query n} (hproceeds : query.Proceeds catalog cache) :
      History (Insert.insert query.record attempted) ((query.ask catalog).run cache).2
  | refuse {attempted : Finset (RecordId n)} {cache : Cache n} (h : History attempted cache)
      {catalog : Catalog n} {query : Query n} (hrefused : ¬ query.Proceeds catalog cache) :
      History attempted ((query.ask catalog).run cache).2

/-- Every cache has a history. -/
theorem Reachable.exists_history (h : cache.Reachable) : ∃ attempted, cache.History attempted := by
  induction h with
  | empty tag limits => exact ⟨∅, .empty tag limits⟩
  | registry _ hstep ih =>
    obtain ⟨attempted, hhistory⟩ := ih
    exact ⟨attempted, hhistory.registry hstep⟩
  | @ask cache _ catalog query ih =>
    obtain ⟨attempted, hhistory⟩ := ih
    by_cases hproceeds : query.Proceeds catalog cache
    · exact ⟨_, hhistory.proceed hproceeds⟩
    · exact ⟨_, hhistory.refuse hproceeds⟩

theorem History.tallied (h : cache.History attempted) : cache.Tallied attempted := by
  induction h with
  | empty tag limits => exact tallied_empty tag limits
  | registry _ hstep ih =>
    obtain ⟨hcoherent, hextends⟩ := hstep.coherent_extends ih.registry
    exact (ih.withRegistry hcoherent hextends).2
  | @proceed _ _ _ catalog query hproceeds ih =>
    obtain ⟨_, _, hrun, -, -, hinserted, -⟩ := ih.ask catalog query
    rw [hrun]
    exact hinserted hproceeds
  | @refuse _ _ _ catalog query hrefused ih =>
    obtain ⟨_, _, hrun, -, -, -, huntouched⟩ := ih.ask catalog query
    rw [hrun]
    exact (huntouched hrefused).1

theorem Tallied.advances (h : cache.Tallied attempted) (hstep : Advances cache after) :
    after.Extends cache ∧ ∃ attempted, after.Tallied attempted := by
  cases hstep with
  | registry hstep =>
    obtain ⟨hcoherent, hextends⟩ := hstep.coherent_extends h.registry
    exact (h.withRegistry hcoherent hextends).imp_right fun htallied => ⟨_, htallied⟩
  | ask catalog query =>
    obtain ⟨_, _, hrun, hlater, -, hinserted, huntouched⟩ := h.ask catalog query
    rw [hrun]
    by_cases hproceeds : query.Proceeds catalog cache
    · exact ⟨hlater, _, hinserted hproceeds⟩
    · exact ⟨hlater, _, (huntouched hproceeds).1⟩

/-- Whatever comes later, no entry of the tables is replaced. -/
theorem Tallied.advanced (h : cache.Tallied attempted)
    (hlater : Relation.ReflTransGen Advances cache later) :
    later.Extends cache ∧ ∃ attempted, later.Tallied attempted := by
  induction hlater with
  | refl => exact ⟨.refl cache, attempted, h⟩
  | tail _ hstep ih =>
    obtain ⟨hextends, _, hreached⟩ := ih
    exact (hreached.advances hstep).imp_left fun hnext => hnext.trans hextends

/-! ## What a request gets -/

variable {query query' : Query n} {codec codec' : Codec n}

/-- Two codecs share their core if and only if they are of the same record. -/
theorem Tallied.sameInstance_iff (h : cache.Tallied attempted)
    (hsettled : query.Settled cache (.ok codec)) (hsettled' : query'.Settled cache (.ok codec')) :
    (query'.record = query.record → codec'.shared = codec.shared) ∧
      (codec'.sameInstance codec = true ↔ query'.record = query.record) := by
  have hslot := hsettled.slot_of_ok
  have hslot' := hsettled'.slot_of_ok
  have hshared (hrecord : query'.record = query.record) : codec'.shared = codec.shared := by
    rw [hrecord] at hslot'
    exact Except.ok.inj (Option.some.inj (hslot'.symm.trans hslot))
  refine ⟨hshared, fun hsame => ?_, fun hrecord => ?_⟩
  · rw [Codec.sameInstance, Bool.and_eq_true, beq_iff_eq, beq_iff_eq] at hsame
    exact h.apart hslot' hslot hsame.2
  · simp [Codec.sameInstance, hshared hrecord]

/-- Which of the two codecs it is depends on the schema alone, and neither is refused. -/
theorem Tallied.fixedOrDynamic (h : cache.Tallied attempted) {record : RecordId n}
    {outcome : Except CodecError (Codec n)}
    (hsettled : (Query.fixedOrDynamic record).Settled cache outcome) :
    (∀ error, outcome = .error error → ¬ error.RefusesLayout) ∧
      ∀ codec, outcome = .ok codec → ∃ schema, cache.registry.get? record = some (.ok schema) ∧
        codec.sizeHint = schema.fixedSize ∧ (codec.mode = .fixed ↔ schema.fixedSize.isSome) := by
  cases hsettled with
  | invalid hentry =>
    refine ⟨fun error heq => ?_, fun codec heq => ?_⟩
    · cases heq
      exact nofun
    · cases heq
  | @refused schema error hentry hrefused =>
    cases hsize : schema.fixedSize <;> simp [grant, requireFixed, Query.mode, hsize] at hrefused
  | @served schema outcome hentry hgranted hslot =>
    cases h.slots _ _ hslot with
    | failed _ =>
      refine ⟨fun error heq => ?_, fun codec heq => ?_⟩
      · cases heq
        exact nofun
      · cases heq
    | @made other shared hother hsize =>
      obtain rfl : other = schema :=
        Except.ok.inj (Option.some.inj (hother.symm.trans hentry))
      obtain ⟨codec, hcodec, hhint⟩ := Codec.exists_ofShared_eq shared
      rw [hsize] at hcodec hhint
      have hmade : (Except.ok shared >>=
          Codec.ofShared (Query.mode other (.fixedOrDynamic record))) = .ok codec := hcodec
      rw [hmade]
      refine ⟨fun error heq => ?_, fun found heq => ?_⟩
      · cases heq
      · cases heq
        exact ⟨other, hentry, hhint, hhint ▸ Codec.mode_eq_fixed_iff⟩

/-- What a cache answers is permanent and shared, whatever it was asked before and whatever became
of the definitions in between.  Once a request has been answered, asking it again at any later time
gives the same outcome, be it a codec or an error, and changes nothing; and any two requests that
are granted a codec, in whichever modes, share its core if and only if they are for the same record.
It does not matter which of two methods a mode is asked for by.  A request for either kind is never
refused a layout, and gets a fixed codec if and only if the schema that the registry keeps has a
fixed size, which is then the size of the codec.  There are as many slots as there are records whose
core was attempted, one attempt for each, and a request that is refused before it comes to that
leaves the slots as they are. -/
theorem History.permanent (hcache : cache.History attempted) (catalog : Catalog n)
    (query : Query n) :
    (∀ later, Relation.ReflTransGen Advances ((query.ask catalog).run cache).2 later →
      (∀ catalog', (query.ask catalog').run later = (((query.ask catalog).run cache).1, later)) ∧
      ∀ (catalog' : Catalog n) (query' : Query n) (codec codec' : Codec n),
        ((query.ask catalog).run cache).1 = .ok codec →
        ((query'.ask catalog').run later).1 = .ok codec' →
          (query'.record = query.record → codec'.shared = codec.shared) ∧
          (codec'.sameInstance codec = true ↔ query'.record = query.record)) ∧
    (∀ record mode, ∀ query' : Query n, query.AsksFor record mode → query'.AsksFor record mode →
      query'.ask catalog = query.ask catalog) ∧
    (∀ record, query = .fixedOrDynamic record →
      (∀ error, ((query.ask catalog).run cache).1 = .error error → ¬ error.RefusesLayout) ∧
      ∀ codec, ((query.ask catalog).run cache).1 = .ok codec →
        ∃ schema, ((query.ask catalog).run cache).2.registry.get? record = some (.ok schema) ∧
          codec.sizeHint = schema.fixedSize ∧ (codec.mode = .fixed ↔ schema.fixedSize.isSome)) ∧
    cache.size = attempted.card ∧ cache.attempts = attempted.card ∧
    (¬ query.Proceeds catalog cache →
      ((query.ask catalog).run cache).2.slots = cache.slots) := by
  have htallied := hcache.tallied
  obtain ⟨outcome, after, hrun, -, hsettled, hinserted, huntouched⟩ := htallied.ask catalog query
  obtain ⟨attempted', hafter⟩ : ∃ attempted', after.Tallied attempted' := by
    by_cases hproceeds : query.Proceeds catalog cache
    · exact ⟨_, hinserted hproceeds⟩
    · exact ⟨_, (huntouched hproceeds).1⟩
  rw [hrun]
  refine ⟨fun later hlater => ?_, ?_, ?_, htallied.size_eq, htallied.attempts_eq, fun hrefused =>
    (huntouched hrefused).2⟩
  · obtain ⟨hextends, attempted'', hreached⟩ := hafter.advanced hlater
    have hkept := hsettled.mono hextends
    refine ⟨fun catalog' => hkept.run_ask hreached.registry.sound catalog', ?_⟩
    rintro catalog' query' codec codec' rfl hcodec'
    -- The second codec is looked at in the tables that its own request leaves.
    have hnext := Relation.ReflTransGen.single (Advances.ask later catalog' query')
    obtain ⟨hextends', _, htallied'⟩ := hreached.advanced hnext
    obtain ⟨outcome', after', hrun', -, hsettled', -, -⟩ := hreached.ask catalog' query'
    rw [hrun'] at hcodec' hextends' htallied'
    obtain rfl : outcome' = .ok codec' := hcodec'
    exact htallied'.sameInstance_iff (hkept.mono hextends') hsettled'
  · intro record mode query' hquery hquery'
    cases mode with
    | fixed => rw [hquery.ask_eq_fixed, hquery'.ask_eq_fixed]
    | dynamic => rw [hquery.ask_eq_dynamic, hquery'.ask_eq_dynamic]
  · rintro record rfl
    exact hafter.fixedOrDynamic hsettled

end Cache

namespace Sample

/-- Points as they may be redefined: they vary in length now. -/
def redefined : Catalog 2
  | 0 => { name := "Label", fields := [⟨"at", .nested 1, .none⟩] }
  | 1 => { name := "Point", fields := [⟨"name", .text, .none⟩] }

def pointCache : Cache 2 :=
  (((Cache.Query.fixedOrDynamic 1).ask catalog).run (.empty 0 .standard)).2

/-- The fixed codec of points that a cache gave out is given out again after points were redefined,
and the dynamic codec shares its core. -/
theorem point_permanent :
    ∃ codec codec' : Codec 2,
      (((Cache.Query.fixedOrDynamic 1).ask catalog).run (.empty 0 .standard)).1 = .ok codec ∧
      codec.sizeHint = some 3 ∧
      ((Cache.Query.fixedOrDynamic 1).ask redefined).run pointCache = (.ok codec, pointCache) ∧
      (((Cache.Query.dynamic 1).ask redefined).run pointCache).1 = .ok codec' ∧
      codec'.sameInstance codec = true := by
  have hhistory : (Cache.empty 0 .standard : Cache 2).History ∅ := .empty 0 .standard
  obtain ⟨codec, hcodec, hhint⟩ : ∃ codec : Codec 2,
      (((Cache.Query.fixedOrDynamic 1).ask catalog).run (.empty 0 .standard)).1 = .ok codec ∧
        codec.sizeHint = some 3 := ⟨_, by with_unfolding_all rfl, rfl⟩
  obtain ⟨codec', hcodec'⟩ : ∃ codec',
      (((Cache.Query.dynamic 1).ask redefined).run pointCache).1 = .ok codec' :=
    ⟨_, by with_unfolding_all rfl⟩
  obtain ⟨hpermanent, -⟩ := hhistory.permanent catalog (.fixedOrDynamic 1)
  obtain ⟨hagain, hshared⟩ := hpermanent pointCache .refl
  refine ⟨codec, codec', hcodec, hhint, ?_, hcodec', ?_⟩
  · rw [hagain redefined, hcodec]
  · exact (hshared redefined (.dynamic 1) codec codec' hcodec hcodec').2.2 rfl

end Sample

end RecordCodec
