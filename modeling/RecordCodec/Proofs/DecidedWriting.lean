import RecordCodec.Proofs.Codec.Core
import RecordCodec.Proofs.Wire.Root
import RecordCodec.Proofs.Codec.Cache

/-!
# Writing is decided by the check

Once the values have passed the check, nothing is left that writing could find wrong with them: it
writes their wire form, part by part, and can only run out of room.  So the check and the room of
the sink decide together how writing ends and which bytes then stand in the sink.
-/

namespace RecordCodec

variable {n : Nat}

/-- The computation puts `bytes` behind what `sink` holds, or as much of them as fits: where the
room ends, it fails with an overflow at the first part that does not fit, and those before it stand
in the sink.  `extended part after` says that `after` is the sink with `part` put behind what it
held, and with nothing else changed. -/
structure Encoding.Delivers {κ : Type} [Sink κ] (encoding : Encoding κ Nat) (bytes : List UInt8)
    (sink : κ) (extended : List UInt8 → κ → Prop) : Prop where
  whole : bytes.length ≤ Sink.capacity sink →
    ∃ after, encoding.run sink = (.ok bytes.length, after) ∧ extended bytes after
  cut : Sink.capacity sink < bytes.length →
    ∃ part next after, part ++ next <+: bytes ∧ part.length < bytes.length ∧
      part.length ≤ Sink.capacity sink ∧ Sink.capacity sink - part.length < next.length ∧
      encoding.run sink =
        (.error (.stream (.overflow next.length (Sink.capacity sink - part.length))), after) ∧
      extended part after

/-- Writing values that have a wire form delivers it to every sink that stores what it is given. -/
theorem Program.RootForm.delivers {program : Program} {limits : Limits} {values : List Value}
    {bytes : List UInt8} (h : program.RootForm limits values bytes) {κ : Type} [LawfulSink κ]
    {sink : κ} {extended : List UInt8 → κ → Prop}
    (hextended : ∀ part : List UInt8, part.length ≤ Sink.capacity sink →
      extended part (LawfulSink.append part sink)) :
    (program.encode limits values).Delivers bytes sink extended where
  whole hroom := ⟨_, h.run_encode hroom, hextended bytes hroom⟩
  cut hfull := by
    obtain ⟨part, next, hprefix, hpart, hnext, hrun⟩ := h.run_encode_of_lt hfull
    rw [List.length_append] at hnext
    exact ⟨part, next, _, hprefix, Nat.lt_of_le_of_lt hpart hfull, hpart, by omega, hrun,
      hextended part hpart⟩

namespace CoreCodec

/-- The check decides writing, on every sink.  Values that it refuses are not written, and writing
fails as the check does.  Values of a length that it accepts stand for bytes of that length, the
same on every sink: buffers and growing byte strings take them whole, or up to the first part that
does not fit, and change nowhere else; and whatever sink is written to, nothing can fail any more
but a write to it. -/
theorem encode_decided {core : CoreCodec n} (hcore : core.Generated) (values : List Value) :
    (∀ error, core.encodedLength values = .error error →
      ∀ {κ : Type} [Sink κ] (sink : κ), (core.encode values).run sink = (.error error, sink)) ∧
    ∀ length, core.encodedLength values = .ok length →
      (∃ bytes, bytes.length = length ∧
        (∀ buffer : Buffer, (core.encode values).Delivers bytes buffer (buffer.Extends ·)) ∧
        ∀ output : Growing, (core.encode values).Delivers bytes output
          fun part after => after.written = output.written ++ part) ∧
      ∀ {κ : Type} [Sink κ] {sink after : κ} {error : CodecError},
        (core.encode values).run sink = (.error error, after) →
        ∃ fault, error = .stream fault := by
  refine ⟨fun error hcheck κ _ sink => Program.run_encode_of_error hcheck, ?_⟩
  intro length hcheck
  obtain ⟨bytes, hform, hlength⟩ := Program.exists_rootForm hcore.wellFormed hcheck
  refine ⟨⟨bytes, hlength, fun buffer => ?_, fun output => ?_⟩, hform.exists_fault_of_run_encode⟩
  · exact hform.delivers fun part hpart => Buffer.extends_append hpart
  · exact hform.delivers fun part hpart => LawfulSink.written_append hpart

end CoreCodec

namespace Sample

/-- A label of seven bytes is put behind the first of six bytes: the point and the length of the
text fit, the text does not. -/
theorem label_cut :
    ∃ bytes, bytes.length = 7 ∧
      ∃ part next after, part ++ next <+: bytes ∧
        (labelCore.encode labelValues).run (Buffer.mk #[9, 9, 9, 9, 9, 9] 1) =
          (.error (.stream (.overflow next.length (5 - part.length))), after) ∧
        (Buffer.mk #[9, 9, 9, 9, 9, 9] 1).Extends part after := by
  have hcheck : labelCore.encodedLength labelValues = .ok 7 := rfl
  obtain ⟨⟨bytes, hlength, hbuffer, -⟩, -⟩ :=
    (CoreCodec.encode_decided labelCore_generated labelValues).2 7 hcheck
  have hfull : Sink.capacity (Buffer.mk #[9, 9, 9, 9, 9, 9] 1) < bytes.length := by
    rw [hlength]
    decide
  obtain ⟨part, next, after, hprefix, -, -, -, hrun, hextends⟩ := (hbuffer _).cut hfull
  exact ⟨bytes, hlength, part, next, after, hprefix, hrun, hextends⟩

end Sample

/-! ## All or nothing

A fixed codec asks for the whole size of a record before it checks the values, and checks all of
them before it writes any.  What the check promises is the size that the codec knows, so nothing can
fail after that: either the whole record is written or the sink stays as it was.  This supposes that
the bytes of the record can be counted, as those of values in memory can.
-/

namespace FixedCodec

open LawfulSink

variable {κ : Type} {codec : FixedCodec n} {data : List Datum} {sink : κ}

/-- The bytes that the data would be written in can be counted, if they are accepted at all. -/
def Counts (codec : FixedCodec n) (data : List Datum) : Prop :=
  ∀ length, codec.core.encodedLength (Datum.toValues data) = .ok length → length ≤ maxCount

/-! ### The three ways in which writing can end -/

theorem run_encode_of_lt [Sink κ] (hfull : Sink.capacity sink < codec.size) :
    (codec.encode data).run sink =
      (.error (.insufficientCapacity codec.core.recordName codec.size (Sink.capacity sink)),
        sink) := by
  apply (run_bind_of_ok Encoding.run_get).trans
  simp only [hfull, if_true]
  exact run_bind_of_error rfl

theorem run_encode_of_le [Sink κ] (hroom : codec.size ≤ Sink.capacity sink) :
    (codec.encode data).run sink =
      (codec.core.encode (Datum.toValues data) >>= fun _ => pure ()).run sink := by
  apply (run_bind_of_ok Encoding.run_get).trans
  simp only [Nat.not_lt.2 hroom, if_false]

theorem run_encode_of_error [Sink κ] {error : CodecError} (hroom : codec.size ≤ Sink.capacity sink)
    (hcheck : codec.core.encodedLength (Datum.toValues data) = .error error) :
    (codec.encode data).run sink = (.error error, sink) := by
  rw [run_encode_of_le hroom]
  exact run_bind_of_error (Program.run_encode_of_error hcheck)

/-- Values that pass the check are written whole, where the size of the codec has room. -/
theorem Proper.run_encode_of_ok [LawfulSink κ] (hcodec : codec.Proper)
    (hcounts : codec.Counts data) {length : Nat}
    (hroom : codec.size ≤ Sink.capacity sink)
    (hcheck : codec.core.encodedLength (Datum.toValues data) = .ok length) :
    length = codec.size ∧ ∃ bytes, bytes.length = codec.size ∧
      (codec.encode data).run sink = (.ok (), append bytes sink) := by
  have hprogram := hcodec.generated.wellFormed
  obtain ⟨bytes, hform, rfl⟩ := Program.exists_rootForm hprogram hcheck
  have hsize :=
    hform.length_eq_of_fixedSize hprogram.sums hcodec.fixedSize_eq (hcounts _ hcheck)
  rw [← hsize] at hroom
  refine ⟨hsize, bytes, hsize, ?_⟩
  rw [run_encode_of_le (hsize ▸ hroom)]
  exact run_bind_of_ok (hform.run_encode hroom)

/-- Writing ends in one of two ways: a whole record stands in the sink, or nothing was written. -/
theorem Proper.run_encode [LawfulSink κ] (hcodec : codec.Proper) (hcounts : codec.Counts data)
    (sink : κ) :
    (∃ bytes, bytes.length = codec.size ∧ bytes.length ≤ Sink.capacity sink ∧
      (codec.encode data).run sink = (.ok (), append bytes sink)) ∨
    ∃ error, (codec.encode data).run sink = (.error error, sink) := by
  rcases Nat.lt_or_ge (Sink.capacity sink) codec.size with hfull | hroom
  · exact .inr ⟨_, run_encode_of_lt hfull⟩
  · cases hcheck : codec.core.encodedLength (Datum.toValues data) with
    | error error => exact .inr ⟨error, run_encode_of_error hroom hcheck⟩
    | ok length =>
      obtain ⟨-, bytes, hsize, hrun⟩ := hcodec.run_encode_of_ok hcounts hroom hcheck
      exact .inl ⟨bytes, hsize, hsize ▸ hroom, hrun⟩

/-- Writing with a fixed codec that a cache handed out is all or nothing.  In a buffer, it either
puts as many bytes as the size of the codec behind those written before and leaves every other byte
as it was, or it fails and leaves the buffer as it was; so it does with a growing byte string.  Once
the sink has room for the size of the codec and the values pass the check, which then gives that
size, writing does not fail. -/
theorem encode_all_or_nothing (hissued : (Codec.fixed codec).Issued) (data : List Datum)
    (hcounts : codec.Counts data) :
    (∀ buffer : Buffer,
      (∃ bytes after, bytes.length = codec.size ∧
        (codec.encode data).run buffer = (.ok (), after) ∧ buffer.Extends bytes after) ∨
      ∃ error, (codec.encode data).run buffer = (.error error, buffer)) ∧
    (∀ output : Growing,
      (∃ bytes after, bytes.length = codec.size ∧
        (codec.encode data).run output = (.ok (), after) ∧
        after.written = output.written ++ bytes) ∨
      ∃ error, (codec.encode data).run output = (.error error, output)) ∧
    ∀ {κ : Type} [LawfulSink κ] {sink : κ} {length : Nat}, codec.size ≤ Sink.capacity sink →
      codec.core.encodedLength (Datum.toValues data) = .ok length →
      length = codec.size ∧ ∃ after, (codec.encode data).run sink = (.ok (), after) := by
  have hcodec : codec.Proper := hissued.proper
  refine ⟨fun buffer => ?_, fun output => ?_, fun hroom hcheck => ?_⟩
  · rcases hcodec.run_encode hcounts buffer with ⟨bytes, hsize, hroom, hrun⟩ | hfailure
    · exact .inl ⟨bytes, _, hsize, hrun, Buffer.extends_append hroom⟩
    · exact .inr hfailure
  · rcases hcodec.run_encode hcounts output with ⟨bytes, hsize, hroom, hrun⟩ | hfailure
    · exact .inl ⟨bytes, _, hsize, hrun, written_append hroom⟩
    · exact .inr hfailure
  · obtain ⟨hlength, bytes, -, hrun⟩ := hcodec.run_encode_of_ok hcounts hroom hcheck
    exact ⟨hlength, _, hrun⟩

end FixedCodec

namespace Sample

def pointCodec : FixedCodec 2 where
  shared :=
    { cache := 0
      serial := 0
      core := { record := 1, program := { plans := #[pointPlan] }, limits := .standard } }
  size := 3

/-- A point is written behind the first of five bytes. -/
theorem point_all_or_nothing :
    (Codec.fixed pointCodec).Issued ∧ pointCodec.Counts [.int16 1, .int32 7] ∧
      pointCodec.size ≤ (Buffer.mk #[9, 9, 9, 9, 9] 1).capacity ∧
      ∃ after, (pointCodec.encode [.int16 1, .int32 7]).run (Buffer.mk #[9, 9, 9, 9, 9] 1) =
        (.ok (), after) := by
  have hissued : (Codec.fixed pointCodec).Issued :=
    ⟨.empty 0 .standard, catalog, .fixed 1, .empty 0 .standard, rfl⟩
  have hroom : pointCodec.size ≤ (Buffer.mk #[9, 9, 9, 9, 9] 1).capacity := by decide
  have hcheck : pointCodec.core.encodedLength (Datum.toValues [.int16 1, .int32 7]) = .ok 3 := rfl
  have hcounts : pointCodec.Counts [.int16 1, .int32 7] := by
    intro length hlength
    obtain rfl : 3 = length := Except.ok.inj (hcheck.symm.trans hlength)
    decide
  exact ⟨hissued, hcounts, hroom,
    ((FixedCodec.encode_all_or_nothing hissued [.int16 1, .int32 7] hcounts).2.2 hroom hcheck).2⟩

end Sample

end RecordCodec
