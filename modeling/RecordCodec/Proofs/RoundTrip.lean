import RecordCodec.Proofs.Codec.Core
import RecordCodec.Proofs.Wire.Root
import RecordCodec.Proofs.Stream.Simulation

/-!
# Round trips

Writing and then reading gives back the values, and reading accepts nothing that writing would not
put out.  The program of a generated core is well-formed, so whatever it writes is a wire form of
the values, and wire forms are read back wherever they come next.
-/

namespace RecordCodec

open LawfulSink LawfulSource

variable {n : Nat}

/-- What a generated core writes, it reads back: wherever the bytes that were written for some
values come next, both ways of reading give these values and leave what follows unread. -/
theorem CoreCodec.decode_of_encode {core : CoreCodec n} (hcore : core.Generated) {κ σ : Type}
    [LawfulSink κ] [LawfulSource σ] {values : List Value} {length : Nat} {sink after : κ}
    {source : σ} {encoding unread : List UInt8}
    (hencode : (core.encode values).run sink = (.ok length, after))
    (hwritten : written after = written sink ++ encoding)
    (hrest : rest source = encoding ++ unread) :
    core.decodeUnchecked.run source = some (.ok values, skip encoding.length source) ∧
      core.decodeChecked.run source = some (.ok values, skip encoding.length source) ∧
      rest (skip encoding.length source) = unread ∧ length = encoding.length := by
  have hprogram := hcore.wellFormed
  obtain ⟨bytes, hform, hlength, hroom, rfl⟩ :=
    Program.exists_rootForm_of_run_encode hprogram hencode
  rw [written_append hroom] at hwritten
  obtain rfl : bytes = encoding := List.append_cancel_left hwritten
  exact ⟨hform.run_decodeUnchecked hprogram hrest, hform.run_decodeChecked hprogram hrest,
    rest_skip_of_rest_eq hrest, hlength.symm⟩

/-- A label is written in seven bytes and read back from in front of another byte. -/
theorem Sample.label_round_trip :
    (labelCore.encode labelValues).run Growing.empty =
        (.ok 7, Growing.mk #[0, 1, 7, 0, 2, 97, 98]) ∧
      labelCore.decodeUnchecked.run (Reader.ofList [0, 1, 7, 0, 2, 97, 98, 9]) =
        some (.ok labelValues, Reader.mk #[0, 1, 7, 0, 2, 97, 98, 9] 7) ∧
      labelCore.decodeChecked.run (Reader.ofList [0, 1, 7, 0, 2, 97, 98, 9]) =
        some (.ok labelValues, Reader.mk #[0, 1, 7, 0, 2, 97, 98, 9] 7) := by
  have hencode : (labelCore.encode labelValues).run Growing.empty =
      (.ok 7, Growing.mk #[0, 1, 7, 0, 2, 97, 98]) := rfl
  have hrest : rest (Reader.ofList [0, 1, 7, 0, 2, 97, 98, 9]) =
      [0, 1, 7, 0, 2, 97, 98] ++ [9] := rfl
  obtain ⟨hunchecked, hchecked, -⟩ :=
    CoreCodec.decode_of_encode labelCore_generated hencode rfl hrest
  exact ⟨hencode, hunchecked, hchecked⟩

/-! ## Canonical wire forms

Reading accepts nothing but wire forms: whatever source it reads, the bytes that it consumes are
those that writing the values would put out, and the check before writing passes.  No other bytes
are read as the same values.
-/

/-- Reading a record from `source` gives `values` and leaves `after`, and `consumed` are the bytes
that it reads on the way. -/
def CoreCodec.Consumes {σ : Type} [Source σ] (core : CoreCodec n) (source : σ)
    (values : List Value) (consumed : List UInt8) (after : σ) : Prop :=
  ∃ budget, (decodeRecord core.program.plan core.limits budget 0 0).run (Recorded.start source) =
    some (.ok values, { source := after, consumed })

namespace CoreCodec

section

variable {σ : Type} [Source σ] {core : CoreCodec n} {source after : σ} {values : List Value}

/-- Recording what is read does not change what is read. -/
theorem exists_consumes_of_decodeRecord {budget : Nat}
    (h : (decodeRecord core.program.plan core.limits budget 0 0).run source =
      some (.ok values, after)) :
    ∃ consumed, core.Consumes source values consumed after := by
  obtain ⟨⟨reached, consumed⟩, hrun, hrelated⟩ := decodeRecord_follows Recorded.simulates
    (Nat.le_refl budget) 0 0 source (Recorded.start source) rfl _ _ h
  obtain rfl : reached = after := hrelated
  exact ⟨consumed, budget, hrun⟩

/-- What checked reading accepts, unchecked reading accepts as well. -/
theorem decodeUnchecked_of_decodeChecked
    (h : core.decodeChecked.run source = some (.ok values, after)) :
    core.decodeUnchecked.run source = some (.ok values, after) := by
  change (core.program.decodeChecked core.limits).run source = _ at h
  cases hsize : core.program.root.fixedSize with
  | none => rwa [Program.run_decodeChecked_of_none hsize] at h
  | some size =>
    rw [Program.run_decodeChecked_of_some hsize] at h
    by_cases hshort : Source.remaining source < size
    · rw [if_pos hshort] at h
      cases h
    · rwa [if_neg hshort] at h

/-- The consumed bytes are the wire form of the values, and they were read from the source. -/
theorem Consumes.rootForm {consumed : List UInt8} (h : core.Consumes source values consumed after) :
    core.program.RootForm core.limits values consumed ∧ Source.Reads source consumed after := by
  obtain ⟨budget, hrun⟩ := h
  obtain ⟨bytes, hform, hreads⟩ := wireForm_of_decodeRecord hrun
  obtain rfl : consumed = [] ++ bytes := Recorded.consumed_of_reads hreads
  exact ⟨hform, Recorded.reads_source hreads⟩

end

/-- On a source that holds its bytes, the consumed bytes are those that came next. -/
theorem Consumes.eq_skip {σ : Type} [LawfulSource σ] {core : CoreCodec n} {source after : σ}
    {values : List Value} {consumed : List UInt8}
    (h : core.Consumes source values consumed after) :
    after = skip consumed.length source ∧ rest source = consumed ++ rest after :=
  eq_skip_of_reads h.rootForm.2

/-- Writing values into a fresh byte string gives their wire form. -/
theorem run_encode_empty {core : CoreCodec n} {values : List Value} {bytes : List UInt8}
    (hform : core.program.RootForm core.limits values bytes)
    (hroom : bytes.length ≤ maxStringLength) :
    (core.encode values).run Growing.empty = (.ok bytes.length, Growing.mk bytes.toArray) := by
  have hcapacity : bytes.length ≤ Sink.capacity Growing.empty := hroom
  rw [← Growing.append_empty]
  exact hform.run_encode hcapacity

/-- Reading is canonical, whatever is read from.  Reading of either kind that succeeds consumes some
bytes, which it took from the source one read after another; the check before writing gives their
number for the values that were read, writing the values into a fresh byte string, if one can be so
long, gives just these bytes, and whoever reads the same values anywhere consumes the same bytes. -/
theorem encode_of_decode (core : CoreCodec n) {σ : Type} [Source σ] {source after : σ}
    {values : List Value} :
    (core.decodeUnchecked.run source = some (.ok values, after) ∨
        core.decodeChecked.run source = some (.ok values, after) →
      ∃ consumed, core.Consumes source values consumed after) ∧
    ∀ consumed, core.Consumes source values consumed after →
      Source.Reads source consumed after ∧
      core.encodedLength values = .ok consumed.length ∧
      (consumed.length ≤ maxStringLength →
        (core.encode values).run Growing.empty =
          (.ok consumed.length, Growing.mk consumed.toArray)) ∧
      ∀ {τ : Type} [Source τ] {other reached : τ} {others : List UInt8},
        core.Consumes other values others reached → others = consumed := by
  constructor
  · rintro (hunchecked | hchecked)
    · exact exists_consumes_of_decodeRecord hunchecked
    · exact exists_consumes_of_decodeRecord (decodeUnchecked_of_decodeChecked hchecked)
  · intro consumed hconsumes
    obtain ⟨hform, hreads⟩ := hconsumes.rootForm
    refine ⟨hreads, hform.encodedLength, run_encode_empty hform, fun hother => ?_⟩
    exact hother.rootForm.1.unique hform

end CoreCodec

/-- A label is read from a cursor in front of another byte; the seven bytes that it took are what it
is written as. -/
theorem Sample.label_canonical :
    ∃ consumed,
      labelCore.Consumes (Cursor.ofList [0, 1, 7, 0, 2, 97, 98, 9]) labelValues consumed
        (Cursor.mk #[0, 1, 7, 0, 2, 97, 98, 9] 7) ∧
      labelCore.encodedLength labelValues = .ok consumed.length ∧
      (labelCore.encode labelValues).run Growing.empty =
        (.ok consumed.length, Growing.mk consumed.toArray) := by
  have hdecode : labelCore.decodeUnchecked.run (Cursor.ofList [0, 1, 7, 0, 2, 97, 98, 9]) =
      some (.ok labelValues, Cursor.mk #[0, 1, 7, 0, 2, 97, 98, 9] 7) := rfl
  obtain ⟨consumed, hconsumes⟩ := (labelCore.encode_of_decode).1 (.inl hdecode)
  obtain ⟨-, hlength, hencode, -⟩ := (labelCore.encode_of_decode).2 consumed hconsumes
  have hseven : consumed.length = 7 := Except.ok.inj (hlength.symm.trans rfl)
  have hroom : consumed.length ≤ maxStringLength := by
    rw [hseven]
    decide
  exact ⟨consumed, hconsumes, hlength, hencode hroom⟩

end RecordCodec
