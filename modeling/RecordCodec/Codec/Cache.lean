import RecordCodec.Codec.Basic

/-!
# Codec caches

A cache makes the core codec of each record type once and hands it out ever after; a failure is
kept as well.  Asking for a fixed codec of a record that has no fixed size is refused before
anything is made.
-/

namespace RecordCodec

/-- The codecs made so far, the registry they were made from, and the limits they run under. -/
structure Cache (n : Nat) where
  /-- Tells this cache from others. -/
  tag : Nat
  limits : Limits
  registry : Registry n
  slots : Memo n (Except CodecError (SharedCore n))
  /-- How many codecs were attempted. -/
  attempts : Nat

/-- A request to a cache, which may fail and yet leave something in it. -/
abbrev Request (n : Nat) := ExceptT CodecError (StateM (Cache n))

namespace Cache

variable {n : Nat}

def empty (tag : Nat) (limits : Limits) : Cache n where
  tag := tag
  limits := limits
  registry := .empty
  slots := .empty
  attempts := 0

/-- How many record types have a codec, or a failed attempt at one. -/
def size (cache : Cache n) : Nat :=
  cache.slots.size

def isEmpty (cache : Cache n) : Bool :=
  cache.slots.isEmpty

def withRegistry {α : Type} (lookup : StateM (Registry n) α) : StateM (Cache n) α :=
  modifyGet fun cache =>
    let (result, registry) := lookup.run cache.registry
    (result, { cache with registry })

def schema (catalog : Catalog n) (record : RecordId n) : Request n (Schema n) :=
  ExceptT.mk (withRegistry (do
    return (← Registry.schema catalog record).mapError CodecError.schema))

/-- The core codec of a schema, made on the first request. -/
def coreFor (catalog : Catalog n) (schema : Schema n) : Request n (SharedCore n) := do
  let cache ← get
  match cache.slots.get? schema.record with
  | some outcome => ExceptT.mk (pure outcome)
  | none =>
    let made ← ExceptT.lift (withRegistry (CoreCodec.generate catalog schema cache.limits).run)
    let outcome := made.map fun core =>
      { cache := cache.tag, serial := cache.attempts, core : SharedCore n }
    ExceptT.mk (modifyGet fun cache =>
      let (outcome, slots) := cache.slots.getOrInsert schema.record outcome
      (outcome, { cache with slots, attempts := cache.attempts + 1 }))

def requireFixed (schema : Schema n) : Except CodecError Unit :=
  if schema.fixedSize.isSome then
    .ok ()
  else if schema.cyclic then
    .error (.cyclicRecord schema.name)
  else
    .error (.noFixedLayout schema.name)

def fixed (catalog : Catalog n) (record : RecordId n) : Request n (FixedCodec n) := do
  let schema ← Cache.schema catalog record
  ExceptT.mk (pure (requireFixed schema))
  let shared ← coreFor catalog schema
  ExceptT.mk (pure (FixedCodec.ofCore shared))

def dynamic (catalog : Catalog n) (record : RecordId n) : Request n (DynamicCodec n) := do
  let schema ← Cache.schema catalog record
  let shared ← coreFor catalog schema
  return { shared }

def getOrCreate (catalog : Catalog n) (mode : CodecMode) (record : RecordId n) :
    Request n (Codec n) := do
  let schema ← Cache.schema catalog record
  if mode = .fixed then
    ExceptT.mk (pure (requireFixed schema))
  let shared ← coreFor catalog schema
  match mode with
  | .fixed => return .fixed (← ExceptT.mk (pure (FixedCodec.ofCore shared)))
  | .dynamic => return .dynamic { shared }

/-- The fixed codec of `record` if its schema has a fixed size, else the dynamic one. -/
def fixedOrDynamic (catalog : Catalog n) (record : RecordId n) : Request n (Codec n) := do
  let schema ← Cache.schema catalog record
  getOrCreate catalog (if schema.fixedSize.isSome then .fixed else .dynamic) record

end Cache

end RecordCodec
