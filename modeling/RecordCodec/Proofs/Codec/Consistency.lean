import RecordCodec.Proofs.Codec.Cache
import RecordCodec.Proofs.Codec.Upkeep

/-!
# Generation that agrees with analysis

The definitions may change between the requests to a cache, so the schemas in one program may come
from different definitions.  They still fit together: an entry of the registry stays, and it was
made from the schemas of nested records that the registry has.  So no program is found to contradict
itself, neither when it is generated nor when something is read with it.
-/

namespace RecordCodec

variable {n : Nat}

/-! ## Typed data -/

section TypedData

variable (types : TypeTable n)

theorem FieldType.ofLeafValue_ordinary {type : FieldType n} {value : Value} {error : CodecError}
    (h : type.ofLeafValue value = .error error) : error.Ordinary := by
  unfold ofLeafValue at h
  split at h
  case h_10 =>
    split at h
    · cases h
    · cases h
      trivial
  all_goals
    cases h
    try trivial

theorem checkFieldCount_ordinary {record : String} {expected : Nat} {values : List Value}
    {error : CodecError} (h : checkFieldCount record expected values = .error error) :
    error.Ordinary := by
  rw [checkFieldCount] at h
  split at h
  · cases h
  · cases h
    trivial

theorem CodecError.Ordinary.atField {error : CodecError} (h : error.Ordinary)
    (record field : String) : (error.atField record field).Ordinary := by
  cases error with
  | valueMismatch => trivial
  | _ => exact h

mutual

/-- A value that does not fit its type is an error of the value. -/
theorem FieldType.ofValue_ordinary (type : FieldType n) (value : Value) {error : CodecError}
    (h : type.ofValue types value = .error error) : error.Ordinary := by
  cases value with
  | record values =>
    rw [FieldType.ofValue] at h
    cases htype : type.unboxed with
    | record record =>
      rw [htype] at h
      cases hdeclared : types record with
      | plain => simp [hdeclared] at h
      | declared declaration =>
        simp only [hdeclared] at h
        rcases Outcome.bind_eq_error_iff.1 h with hcount | ⟨_, -, hnext⟩
        · exact checkFieldCount_ordinary hcount
        · rcases Outcome.bind_eq_error_iff.1 hnext with hmembers | ⟨_, -, hpure⟩
          · exact Member.ofValues_ordinary declaration.name declaration.members values hmembers
          · cases hpure
    | _ =>
      rw [htype] at h
      exact FieldType.ofLeafValue_ordinary h
  | _ => exact FieldType.ofLeafValue_ordinary h

theorem Member.ofValues_ordinary (record : String) (members : List (Member n))
    (values : List Value) {error : CodecError}
    (h : Member.ofValues types record members values = .error error) : error.Ordinary := by
  cases members with
  | nil =>
    rw [Member.ofValues] at h
    cases h
  | cons member members =>
    cases values with
    | nil =>
      rw [Member.ofValues] at h
      cases h
      trivial
    | cons value values =>
      rw [Member.ofValues] at h
      rcases Outcome.bind_eq_error_iff.1 h with hfirst | ⟨_, -, hnext⟩
      · cases hvalue : FieldType.ofValue types member.type value with
        | ok datum =>
          rw [hvalue] at hfirst
          cases hfirst
        | error inner =>
          rw [hvalue] at hfirst
          cases hfirst
          exact (FieldType.ofValue_ordinary member.type value hvalue).atField record member.name
      · rcases Outcome.bind_eq_error_iff.1 hnext with hothers | ⟨_, -, hpure⟩
        · exact Member.ofValues_ordinary record members values hothers
        · cases hpure

end

theorem TypeTable.ofValues_ordinary (record : RecordId n) (values : List Value)
    {error : CodecError} (h : types.ofValues record values = .error error) : error.Ordinary := by
  rw [ofValues] at h
  cases hdeclared : types record with
  | plain =>
    rw [hdeclared] at h
    cases h
  | declared declaration =>
    rw [hdeclared] at h
    rcases Outcome.bind_eq_error_iff.1 h with hcount | ⟨_, -, hmembers⟩
    · exact checkFieldCount_ordinary hcount
    · exact Member.ofValues_ordinary types declaration.name declaration.members values hmembers

end TypedData

/-! ## Reading with a codec -/

section Reading

open Decoding

variable {σ : Type} [Source σ]

theorem DynamicCodec.decode_failsWith (types : TypeTable n) {codec : DynamicCodec n}
    (hcodec : codec.core.Generated) :
    FailsWith CodecError.Ordinary (codec.decode types : Decoding σ (List Datum)) :=
  ((Program.decodeUnchecked_finds hcodec.wellFormed.admissible).mono
    fun _ => CodecError.FoundInSource.ordinary).bind fun values _ =>
    .ofExcept fun _ => TypeTable.ofValues_ordinary types _ values

theorem FixedCodec.decode_failsWith (types : TypeTable n) {codec : FixedCodec n}
    (hcodec : codec.Proper) :
    FailsWith CodecError.Ordinary (codec.decode types : Decoding σ (List Datum)) := by
  have hvalues : FailsWith CodecError.Ordinary (do
      let values ← codec.core.decodeChecked
      Decoding.ofExcept (types.ofValues codec.core.record values) :
        Decoding σ (List Datum)) :=
    ((Program.decodeChecked_finds hcodec.generated.wellFormed.admissible).mono
      fun _ => CodecError.FoundInSource.ordinary).bind fun values _ =>
      .ofExcept fun _ => TypeTable.ofValues_ordinary types _ values
  intro source error after hrun
  rw [run_decode] at hrun
  by_cases hshort : Source.remaining source < codec.size
  · rw [if_pos hshort] at hrun
    cases hrun
    trivial
  · rw [if_neg hshort] at hrun
    exact hvalues source error after hrun

theorem Codec.decode_failsWith (types : TypeTable n) {codec : Codec n} (hcodec : codec.Proper) :
    FailsWith CodecError.Ordinary (codec.decode types : Decoding σ (List Datum)) := by
  cases codec with
  | fixed codec => exact FixedCodec.decode_failsWith types hcodec
  | dynamic codec => exact DynamicCodec.decode_failsWith types hcodec

end Reading

/-! ## Requests to a cache -/

/-- If generating from an entry of the registry fails, then because some record has no schema. -/
theorem upholds_ordinary (limits : Limits) (catalog : Catalog n) :
    Upholds (Registry.Coherent fun _ => True) (fun _ => FailsOrdinarily) limits catalog := by
  apply upholds_of_generated (Registry.admits_coherent trivial) fun _ hcoherent => hcoherent
  · exact fun _ _ => nofun
  · rintro schema _ registry ⟨_, _, fault, -, -, -, rfl⟩ error heq
    cases heq
    trivial

namespace Cache

/-- Generation never contradicts analysis.  Whatever a cache was asked, and however the definitions
changed in between, no request for a codec fails because plans contradict each other, and neither
does any reading with a codec that it hands out, from whatever source and within whatever budget. -/
theorem Reachable.no_generationFailure {cache : Cache n} (hcache : cache.Reachable)
    (catalog : Catalog n) (query : Query n) :
    (∀ record detail,
      ((query.ask catalog).run cache).1 ≠ .error (.generationFailure record detail)) ∧
    ∀ codec, ((query.ask catalog).run cache).1 = .ok codec →
      ∀ {σ : Type} [Source σ] (types : TypeTable n) (source after : σ) (record detail : String),
        (codec.decode types).run source ≠
          some (.error (.generationFailure record detail), after) ∧
        ∀ budget, (decodeRecord codec.core.program.plan codec.core.limits budget 0 0).run source ≠
          some (.error (.generationFailure record detail), after) := by
  constructor
  · intro record detail hrun
    have hkeeps := hcache.keeps (Registry.coherent_empty _) upholds_ordinary
    have hparts := parts_of_upholds (upholds_ordinary cache.limits catalog)
      (fun error (herror : error.Ordinary) => herror) fun _ _ hmade => hmade _ rfl
    exact ((hparts.leads_ask query cache hkeeps).2 _ hrun).2
  · intro codec hrun σ _ types source after record detail
    have hissued : codec.Issued := ⟨cache, catalog, query, hcache, hrun⟩
    exact ⟨fun hfail => Codec.decode_failsWith types hissued.proper source _ after hfail,
      fun budget hfail =>
        decodeRecord_failsWith hissued.wellFormed.admissible budget 0 0 source _ after hfail⟩

end Cache

namespace Sample

def flatCatalog : Catalog 2 :=
  catalog.define 1 { name := "Point", fields := [⟨"x", .int16, .none⟩] }

/-- A cache whose registry has met points while they had two coordinates. -/
def seasonedCache : Cache 2 where
  tag := 0
  limits := .standard
  registry := ((Registry.schema catalog 1).run .empty).2
  slots := .empty
  attempts := 0

/-- A codec for labels that is generated after points were redefined still reads the old points. -/
theorem label_consistent :
    seasonedCache.Reachable ∧
      (((Cache.Query.fixedOrDynamic 0).ask flatCatalog).run seasonedCache).1 =
        .ok (.dynamic ⟨⟨0, 0, labelCore⟩⟩) ∧
      ∀ (types : TypeTable 2) (source after : Reader) (record detail : String),
        ((Codec.dynamic ⟨⟨0, 0, labelCore⟩⟩).decode types).run source ≠
          some (.error (.generationFailure record detail), after) := by
  have hcache : seasonedCache.Reachable :=
    .registry (.empty 0 .standard) (.schema catalog 1 .empty)
  have hrun : (((Cache.Query.fixedOrDynamic 0).ask flatCatalog).run seasonedCache).1 =
      .ok (.dynamic ⟨⟨0, 0, labelCore⟩⟩) := by with_unfolding_all rfl
  obtain ⟨-, hdecode⟩ := hcache.no_generationFailure flatCatalog (.fixedOrDynamic 0)
  exact ⟨hcache, hrun, fun types source after record detail =>
    (hdecode _ hrun types source after record detail).1⟩

end Sample

end RecordCodec
