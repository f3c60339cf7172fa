import RecordCodec.Proofs.RoundTrip
import RecordCodec.Proofs.Codec.Cache
import RecordCodec.Proofs.ValueChecks

/-!
# Typed reading

A typed codec reads values by its core and fits data to them.  What the core reads is a wire form of
the values, so they pass the check before writing, and values that pass it fit the declared types.
So fitting never fails, and it loses nothing: the data have the values that were read, and are
written as the bytes that they were read from.
-/

namespace RecordCodec

open LawfulSource

variable {n : Nat}

/-! ## The core's part -/

def Codec.readValues {σ : Type} [Source σ] : Codec n → Decoding σ (List Value)
  | fixed codec => codec.core.decodeChecked
  | dynamic codec => codec.core.decodeUnchecked

/-- The core of a fixed codec compares the source with the same size once more, so it makes no
difference that the codec has done so. -/
theorem Codec.decode_eq {σ : Type} [Source σ] (types : TypeTable n) {codec : Codec n}
    (hsize : ∀ size, codec.sizeHint = some size → codec.core.fixedSize = some size) :
    (codec.decode types : Decoding σ (List Datum)) = (do
      let values ← codec.readValues
      Decoding.ofExcept (types.ofValues codec.core.record values)) := by
  cases codec with
  | dynamic codec => rfl
  | fixed codec =>
    apply ExceptT.ext
    funext source
    refine (codec.run_decode types source).trans ?_
    by_cases hshort : Source.remaining source < codec.size
    · have hread : codec.core.decodeChecked.run source = some (.error
          (.insufficientData codec.core.recordName codec.size (Source.remaining source)),
          source) := by
        refine (Program.run_decodeChecked_of_some (hsize codec.size rfl)).trans ?_
        rw [if_pos hshort]
        rfl
      rw [if_pos hshort]
      exact (Decoding.run_bind_of_error hread).symm
    · rw [if_neg hshort]
      rfl

/-- The values of decoded data are those that the core read. -/
theorem Codec.readValues_of_decode {σ : Type} [Source σ] {types : TypeTable n} {codec : Codec n}
    (hsize : ∀ size, codec.sizeHint = some size → codec.core.fixedSize = some size)
    {source after : σ} {data : List Datum}
    (h : (codec.decode types).run source = some (.ok data, after)) :
    codec.readValues.run source = some (.ok (Datum.toValues data), after) := by
  rw [Codec.decode_eq types hsize] at h
  obtain ⟨values, reached, hread, hfit⟩ := Decoding.bind_eq_ok_iff.1 h
  rw [Decoding.run_ofExcept] at hfit
  obtain ⟨hdata, rfl⟩ := Prod.mk.inj (Option.some.inj hfit)
  rw [hread, TypeTable.toValues_of_ofValues hdata]

/-- Both ways of reading by a core accept only values that have a wire form. -/
theorem CoreCodec.exists_consumes {core : CoreCodec n} {σ : Type} [Source σ] {source after : σ}
    {values : List Value}
    (h : core.decodeUnchecked.run source = some (.ok values, after) ∨
      core.decodeChecked.run source = some (.ok values, after)) :
    ∃ consumed, core.Consumes source values consumed after := by
  rcases h with hunchecked | hchecked
  · exact exists_consumes_of_decodeRecord hunchecked
  · exact exists_consumes_of_decodeRecord (decodeUnchecked_of_decodeChecked hchecked)

/-! ## Fitting what was read -/

section Fitting

variable {types : TypeTable n} {record : RecordId n} {values : List Value} {data : List Datum}

/-- Values that a core of a declared record reads fit the record. -/
theorem CoreCodec.Consumes.fits {core : CoreCodec n} {σ : Type} [Source σ] {source after : σ}
    {consumed : List UInt8} (hconsumes : core.Consumes source values consumed after)
    (hcore : core.GeneratedUnder types.catalog record)
    (hdeclared : types.DeclaredThroughout record) :
    ∃ data, types.ofValues record values = .ok data ∧ Datum.toValues data = values := by
  have hlength : core.encodedLength values = .ok consumed.length :=
    hconsumes.rootForm.1.encodedLength
  obtain ⟨data, hfit⟩ := (hcore.checksAgree hdeclared values).fits consumed.length hlength
  exact ⟨data, hfit, TypeTable.toValues_of_ofValues hfit⟩

variable {codec : Codec n}

theorem Codec.exists_consumes {σ : Type} [Source σ] {source after : σ}
    (h : codec.readValues.run source = some (.ok values, after)) :
    ∃ consumed, codec.core.Consumes source values consumed after := by
  cases codec with
  | fixed codec => exact CoreCodec.exists_consumes (.inr h)
  | dynamic codec => exact CoreCodec.exists_consumes (.inl h)

theorem Codec.readValues_finds {σ : Type} [Source σ] {catalog : Catalog n}
    (hcore : codec.core.GeneratedUnder catalog record) :
    Decoding.FailsWith CodecError.FoundInSource (codec.readValues : Decoding σ (List Value)) := by
  have hplans := hcore.wellFormed.admissible
  cases codec with
  | fixed codec => exact Program.decodeChecked_finds hplans
  | dynamic codec => exact Program.decodeUnchecked_finds hplans

/-- Writing data gives the bytes that a core consumed for their values. -/
theorem Codec.encodeToBytes_of_rootForm {bytes : List UInt8}
    (hform : codec.core.program.RootForm codec.core.limits (Datum.toValues data) bytes)
    (hroom : bytes.length ≤ maxStringLength) : codec.encodeToBytes data = .ok bytes := by
  have hlength : codec.core.encodedLength (Datum.toValues data) = .ok bytes.length :=
    hform.encodedLength
  rw [encodeToBytes, hlength, CoreCodec.run_encode_empty hform hroom]
  rfl

/-- A codec of a declared record decodes whatever its core reads, and fails only where the core
does. -/
structure Codec.DecodesAsRead (codec : Codec n) (types : TypeTable n) : Prop where
  ok : ∀ {σ : Type} [Source σ] {source after : σ} {values : List Value},
    codec.readValues.run source = some (.ok values, after) →
      ∃ data, (codec.decode types).run source = some (.ok data, after) ∧
        Datum.toValues data = values
  error : ∀ {σ : Type} [Source σ] {source after : σ} {error : CodecError},
    (codec.decode types).run source = some (.error error, after) →
      codec.readValues.run source = some (.error error, after)

theorem Codec.Wraps.decodesAsRead
    (hcodec : codec.Wraps fun shared => shared.core.GeneratedUnder types.catalog record)
    (hdeclared : types.DeclaredThroughout record) : codec.DecodesAsRead types := by
  have hcore : codec.core.GeneratedUnder types.catalog record := hcodec.shared
  have hfits {σ : Type} [Source σ] {source after : σ} {values : List Value}
      (hread : codec.readValues.run source = some (.ok values, after)) :
      ∃ data, types.ofValues codec.core.record values = .ok data ∧
        Datum.toValues data = values := by
    rw [hcore.record_eq]
    obtain ⟨consumed, hconsumes⟩ := Codec.exists_consumes hread
    exact hconsumes.fits hcore hdeclared
  constructor
  · intro σ _ source after values hread
    obtain ⟨data, hfit, hvalues⟩ := hfits hread
    refine ⟨data, ?_, hvalues⟩
    rw [Codec.decode_eq types hcodec.fixedSize_eq, Decoding.run_bind_of_ok hread, hfit]
    rfl
  · intro σ _ source after error hrun
    rw [Codec.decode_eq types hcodec.fixedSize_eq] at hrun
    cases hread : codec.readValues.run source with
    | none =>
      rw [Decoding.run_bind_of_none hread] at hrun
      cases hrun
    | some result =>
      rcases result with ⟨outcome, reached⟩
      cases outcome with
      | error fault =>
        rw [Decoding.run_bind_of_error hread] at hrun
        cases hrun
        rfl
      | ok values =>
        obtain ⟨data, hfit, -⟩ := hfits hread
        rw [Decoding.run_bind_of_ok hread, hfit] at hrun
        cases hrun

end Fitting

/-! ## Typed codecs -/

namespace Codec

variable {types : TypeTable n} {record : RecordId n} {codec : Codec n}

theorem decodeFromBytes_eq_ok_iff {bytes : List UInt8} {data : List Datum} {count : Nat} :
    codec.decodeFromBytes types bytes = some (.ok (data, count)) ↔
      ∃ reader, (codec.decode types).run (Reader.ofList bytes) = some (.ok data, reader) ∧
        reader.position = count := by
  change ((codec.decode types).run (Reader.ofList bytes)).bind _ = _ ↔ _
  cases (codec.decode types).run (Reader.ofList bytes) with
  | none => simp
  | some result =>
    rcases result with ⟨outcome, reader⟩
    cases outcome with
    | error error => simp [Except.map]
    | ok value => simp [Except.map]

/-- A core that reads from the start of a byte string consumes its first bytes. -/
theorem take_position_of_consumes {core : CoreCodec n} {bytes consumed : List UInt8}
    {values : List Value} {after : Reader}
    (h : core.Consumes (Reader.ofList bytes) values consumed after) :
    after.position ≤ bytes.length ∧ bytes.take after.position = consumed := by
  obtain ⟨hafter, hrest⟩ := h.eq_skip
  have hposition : after.position = consumed.length := by
    rw [hafter]
    exact Nat.zero_add consumed.length
  have hbytes : bytes = consumed ++ rest after := by
    rw [← hrest]
    exact (Reader.rest_eq_drop (Reader.ofList bytes)).symm
  rw [hposition, hbytes, List.length_append]
  exact ⟨Nat.le_add_right _ _, List.take_left⟩

/-- Decoding a declared record adds no failure to what the core does, and loses nothing.  Whatever
values the core reads, in either way and from any source, fit the record, and the data have these
values again.  So the codec decodes wherever its core reads, and leaves the source in the same
state; it fails only where the core does, with the same error, and never because values do not fit.
Data that were decoded from the front of a byte string are written as just the bytes that they
took. -/
theorem Wraps.decode_loses_nothing
    (hcodec : codec.Wraps fun shared => shared.core.GeneratedUnder types.catalog record)
    (hdeclared : types.DeclaredThroughout record) :
    (∀ {σ : Type} [Source σ] (source after : σ) (values : List Value),
      codec.core.decodeUnchecked.run source = some (.ok values, after) ∨
          codec.core.decodeChecked.run source = some (.ok values, after) →
        ∃ data, types.ofValues record values = .ok data ∧ Datum.toValues data = values) ∧
    (∀ {σ : Type} [Source σ] (source after : σ) (values : List Value),
      codec.readValues.run source = some (.ok values, after) →
        ∃ data, (codec.decode types).run source = some (.ok data, after) ∧
          Datum.toValues data = values) ∧
    (∀ {σ : Type} [Source σ] (source after : σ) (error : CodecError),
      (codec.decode types).run source = some (.error error, after) →
        codec.readValues.run source = some (.error error, after) ∧ ¬ error.Misfit) ∧
    ∀ (bytes : List UInt8) (data : List Datum) (count : Nat),
      bytes.length ≤ maxStringLength →
        codec.decodeFromBytes types bytes = some (.ok (data, count)) →
          count ≤ bytes.length ∧ codec.encodeToBytes data = .ok (bytes.take count) := by
  have hcore : codec.core.GeneratedUnder types.catalog record := hcodec.shared
  have hdecodes := hcodec.decodesAsRead hdeclared
  refine ⟨fun source after values hread => ?_, fun source after values hread => hdecodes.ok hread,
    fun source after error hrun => ?_, fun bytes data count hlength hrun => ?_⟩
  · obtain ⟨consumed, hconsumes⟩ := CoreCodec.exists_consumes hread
    exact hconsumes.fits hcore hdeclared
  · have hread := hdecodes.error hrun
    exact ⟨hread, (readValues_finds hcore source error after hread).not_misfit⟩
  · obtain ⟨reader, hdecode, rfl⟩ := decodeFromBytes_eq_ok_iff.1 hrun
    obtain ⟨consumed, hconsumes⟩ :=
      exists_consumes (readValues_of_decode hcodec.fixedSize_eq hdecode)
    obtain ⟨hcount, rfl⟩ := take_position_of_consumes hconsumes
    have hroom : (bytes.take reader.position).length ≤ maxStringLength :=
      Nat.le_trans (List.length_take_le' _ _) hlength
    exact ⟨hcount, encodeToBytes_of_rootForm hconsumes.rootForm.1 hroom⟩

end Codec

namespace Sample

def labelCodec : Codec 2 :=
  .dynamic ⟨⟨0, 0, labelCore⟩⟩

/-- A label is decoded from the first seven of eight bytes, and they are what it is written as. -/
theorem label_decoded :
    labelCodec.core.GeneratedUnder labelTypes.catalog 0 ∧
      labelTypes.DeclaredThroughout 0 ∧
      (∃ data, labelTypes.ofValues 0 labelValues = .ok data ∧ Datum.toValues data = labelValues) ∧
      labelCodec.decodeFromBytes labelTypes [0, 1, 7, 0, 2, 97, 98, 9] =
        some (.ok ([.record [.int16 1, .int32 7], .text "ab"], 7)) ∧
      labelCodec.encodeToBytes [.record [.int16 1, .int32 7], .text "ab"] =
        .ok [0, 1, 7, 0, 2, 97, 98] := by
  have hcodec : labelCodec.Wraps fun shared => shared.core.GeneratedUnder labelTypes.catalog 0 :=
    ⟨labelCore_generatedUnder_labelTypes, nofun⟩
  have hread : labelCodec.core.decodeUnchecked.run (Reader.ofList [0, 1, 7, 0, 2, 97, 98, 9]) =
      some (.ok labelValues, Reader.mk #[0, 1, 7, 0, 2, 97, 98, 9] 7) := rfl
  have hdecode : labelCodec.decodeFromBytes labelTypes [0, 1, 7, 0, 2, 97, 98, 9] =
      some (.ok ([.record [.int16 1, .int32 7], .text "ab"], 7)) := rfl
  obtain ⟨hfits, -, -, hbytes⟩ := hcodec.decode_loses_nothing labelTypes_declaredThroughout
  obtain ⟨-, hencode⟩ := hbytes [0, 1, 7, 0, 2, 97, 98, 9] _ 7 (by decide) hdecode
  exact ⟨hcodec.shared, labelTypes_declaredThroughout, hfits _ _ labelValues (.inl hread), hdecode,
    hencode⟩

end Sample

end RecordCodec
