import RecordCodec.Plan.Encode
import RecordCodec.Proofs.Invariant
import RecordCodec.Proofs.Stream.Writing

/-!
# Computations that write

A computation that writes ends with an outcome and a sink.  The first half says when a composed
computation succeeds.  The second half is about computations that do nothing but write a given byte
string, part by part: they succeed exactly if the sink has room for it, and where the room ends, a
prefix stands in the sink.
-/

namespace RecordCodec

namespace Encoding

variable {κ α β : Type} {sink after : κ}

theorem bind_eq_ok_iff {first : Encoding κ α} {next : α → Encoding κ β} {value : β} :
    (first >>= next).run sink = (.ok value, after) ↔
      ∃ inner reached, first.run sink = (.ok inner, reached) ∧
        (next inner).run reached = (.ok value, after) := by
  constructor
  · intro h
    cases hfirst : first.run sink with
    | mk outcome reached =>
      cases outcome with
      | error error => rw [run_bind_of_error hfirst] at h; cases h
      | ok inner =>
        rw [run_bind_of_ok hfirst] at h
        exact ⟨inner, reached, rfl, h⟩
  · rintro ⟨inner, reached, hfirst, hnext⟩
    rw [run_bind_of_ok hfirst, hnext]

theorem run_get : (get : Encoding κ κ).run sink = (.ok sink, sink) :=
  rfl

theorem run_ofExcept (outcome : Except CodecError α) :
    (ofExcept outcome : Encoding κ α).run sink = (outcome, sink) :=
  rfl

theorem run_ofWriting (writing : Writing κ α) :
    (ofWriting writing).run sink =
      ((writing.run sink).1.mapError CodecError.stream, (writing.run sink).2) :=
  rfl

end Encoding

/-! ## Writing a given byte string -/

namespace Encoding

section

variable {κ : Type} [Sink κ]

def putAll (parts : List (List UInt8)) : Encoding κ Unit :=
  parts.forM fun part => ofWriting (Sink.writeBytes part)

/-- The computation writes `bytes`, part by part, and does nothing else. -/
def Writes (bytes : List UInt8) (encoding : Encoding κ Unit) : Prop :=
  ∃ parts : List (List UInt8), parts.flatten = bytes ∧ encoding = putAll parts

variable {part : List UInt8} {parts : List (List UInt8)}

theorem putAll_cons : (putAll (part :: parts) : Encoding κ Unit) =
    (do ofWriting (Sink.writeBytes part); putAll parts) :=
  rfl

/-- Whatever the sink, nothing can go wrong on the way but a write. -/
theorem exists_fault_of_run_putAll {sink after : κ} {error : CodecError}
    (h : (putAll parts).run sink = (.error error, after)) : ∃ fault, error = .stream fault := by
  induction parts generalizing sink with
  | nil => cases h
  | cons part parts ih =>
    rw [putAll_cons] at h
    cases hput : Sink.put part sink with
    | mk outcome reached =>
      have hpart : (ofWriting (Sink.writeBytes part)).run sink =
          (outcome.mapError CodecError.stream, reached) := by
        rw [run_ofWriting]
        exact congrArg (fun put => (put.1.mapError CodecError.stream, put.2)) hput
      cases outcome with
      | ok _ =>
        rw [run_bind_of_ok hpart] at h
        exact ih h
      | error fault =>
        rw [run_bind_of_error hpart] at h
        cases h
        exact ⟨fault, rfl⟩

namespace Writes

theorem nil : Writes [] (pure () : Encoding κ Unit) :=
  ⟨[], rfl, rfl⟩

theorem writeBytes (bytes : List UInt8) :
    Writes bytes (ofWriting (Sink.writeBytes bytes) : Encoding κ Unit) :=
  ⟨[bytes], List.flatten_singleton, (bind_pure _).symm⟩

/-- What is written in two parts is written as a whole. -/
theorem append {bytes others : List UInt8} {first second : Encoding κ Unit}
    (hfirst : Writes bytes first) (hsecond : Writes others second) :
    Writes (bytes ++ others) (first >>= fun _ => second) := by
  obtain ⟨parts, rfl, rfl⟩ := hfirst
  obtain ⟨rest, rfl, rfl⟩ := hsecond
  exact ⟨parts ++ rest, List.flatten_append, List.forM_append.symm⟩

theorem exists_fault {bytes : List UInt8} {encoding : Encoding κ Unit}
    (h : Writes bytes encoding) {sink after : κ} {error : CodecError}
    (hrun : encoding.run sink = (.error error, after)) : ∃ fault, error = .stream fault := by
  obtain ⟨parts, -, rfl⟩ := h
  exact exists_fault_of_run_putAll hrun

end Writes

end

section

variable {κ : Type} [LawfulSink κ] {parts : List (List UInt8)} {sink : κ}

/-- Where the sink has room for all parts, they stand there as one byte string. -/
theorem run_putAll_of_le (hroom : parts.flatten.length ≤ Sink.capacity sink) :
    (putAll parts).run sink = (.ok (), LawfulSink.append parts.flatten sink) := by
  induction parts generalizing sink with
  | nil =>
    rw [List.flatten_nil, LawfulSink.append_nil]
    rfl
  | cons part parts ih =>
    rw [List.flatten_cons, List.length_append] at hroom
    have hpart : (ofWriting (Sink.writeBytes part)).run sink =
        (.ok (), LawfulSink.append part sink) := by
      rw [run_ofWriting, Sink.run_writeBytes_of_le (by omega)]
      rfl
    rw [putAll_cons, run_bind_of_ok hpart, ih, LawfulSink.append_append, List.flatten_cons]
    rw [LawfulSink.capacity_append]
    omega

/-- Where the room ends, the parts before stand in the sink, and the next one was refused. -/
theorem run_putAll_of_lt (hfull : Sink.capacity sink < parts.flatten.length) :
    ∃ before next, before ++ next <+: parts.flatten ∧
      before.length ≤ Sink.capacity sink ∧ Sink.capacity sink < (before ++ next).length ∧
      (putAll parts).run sink =
        (.error (.stream (.overflow next.length (Sink.capacity sink - before.length))),
          LawfulSink.append before sink) := by
  induction parts generalizing sink with
  | nil => cases hfull
  | cons part parts ih =>
    rw [List.flatten_cons, List.length_append] at hfull
    rw [List.flatten_cons, putAll_cons]
    rcases Nat.lt_or_ge (Sink.capacity sink) part.length with hshort | hroom
    · refine ⟨[], part, List.prefix_append part _, Nat.zero_le _, hshort, ?_⟩
      have hpart : (ofWriting (Sink.writeBytes part)).run sink =
          (.error (.stream (.overflow part.length (Sink.capacity sink))), sink) := by
        rw [run_ofWriting, Sink.run_writeBytes_of_lt hshort]
        rfl
      rw [run_bind_of_error hpart, LawfulSink.append_nil]
      rfl
    · have hpart : (ofWriting (Sink.writeBytes part)).run sink =
          (.ok (), LawfulSink.append part sink) := by
        rw [run_ofWriting, Sink.run_writeBytes_of_le hroom]
        rfl
      have hleft := LawfulSink.capacity_append part sink
      obtain ⟨before, next, hprefix, hbefore, hnext, hrun⟩ :=
        @ih (LawfulSink.append part sink) (by omega)
      rw [hleft] at hbefore hnext hrun
      refine ⟨part ++ before, next, ?_, ?_, ?_, ?_⟩
      · rw [List.append_assoc]
        exact (List.prefix_append_right_inj part).2 hprefix
      · rw [List.length_append]
        omega
      · rw [List.append_assoc, List.length_append]
        omega
      · rw [run_bind_of_ok hpart, hrun, LawfulSink.append_append, List.length_append, Nat.sub_sub]

namespace Writes

variable {bytes : List UInt8} {encoding : Encoding κ Unit}

theorem run_of_le (h : Writes bytes encoding) (hroom : bytes.length ≤ Sink.capacity sink) :
    encoding.run sink = (.ok (), LawfulSink.append bytes sink) := by
  obtain ⟨parts, rfl, rfl⟩ := h
  exact run_putAll_of_le hroom

theorem run_of_lt (h : Writes bytes encoding) (hfull : Sink.capacity sink < bytes.length) :
    ∃ before next, before ++ next <+: bytes ∧
      before.length ≤ Sink.capacity sink ∧ Sink.capacity sink < (before ++ next).length ∧
      encoding.run sink =
        (.error (.stream (.overflow next.length (Sink.capacity sink - before.length))),
          LawfulSink.append before sink) := by
  obtain ⟨parts, rfl, rfl⟩ := h
  exact run_putAll_of_lt hfull

/-- It succeeds in no sink that has too little room. -/
theorem le_of_run (h : Writes bytes encoding) {after : κ}
    (hrun : encoding.run sink = (.ok (), after)) : bytes.length ≤ Sink.capacity sink := by
  apply Nat.le_of_not_lt
  intro hfull
  obtain ⟨_, _, -, -, -, hfailure⟩ := h.run_of_lt hfull
  rw [hfailure] at hrun
  cases hrun

end Writes

end

end Encoding

end RecordCodec
