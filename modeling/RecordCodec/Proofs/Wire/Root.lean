import RecordCodec.Proofs.Plan.Budget
import RecordCodec.Proofs.Wire.FixedSize
import RecordCodec.Proofs.Wire.Writing

/-!
# Wire forms of a program

Reading, checking and writing the root record of a well-formed program, each told in terms of the
wire form: values that pass the check are the values that have one, writing puts just that into the
sink, and reading gives back the values of the one that comes next.
-/

namespace RecordCodec

namespace Program

/-- `bytes` are the wire form of `values` as the root record. -/
def RootForm (program : Program) (limits : Limits) (values : List Value) (bytes : List UInt8) :
    Prop :=
  WireForm program.plan limits 0 program.root.steps values bytes

variable {program : Program} {limits : Limits} {values : List Value} {bytes : List UInt8}
variable {length : Nat}

/-! ## Checking -/

theorem RootForm.encodedLength (h : program.RootForm limits values bytes) :
    program.encodedLength limits values = .ok bytes.length :=
  recordLength_eq_ok_iff.2 ⟨h.length_values, h.stepsLength _⟩

theorem exists_rootForm (hprogram : program.WellFormed)
    (hlength : program.encodedLength limits values = .ok length) :
    ∃ bytes, program.RootForm limits values bytes ∧ bytes.length = length := by
  obtain ⟨hcount, hsteps⟩ := recordLength_eq_ok_iff.1 hlength
  exact exists_wireForm_of_stepsLength hprogram.admissible _ 0 _ (hprogram.admissible 0) values
    hcount hsteps

section FixedSize

variable {size : Nat} (hsums : program.Sums) (h : program.RootForm limits values bytes)
variable (hsize : program.root.fixedSize = some size)
include hsums h hsize

theorem RootForm.le_length_of_fixedSize : size ≤ bytes.length := by
  rw [← WireForm.wrapCount_length_eq_of_fixedSize hsums h hsize]
  exact wrapCount_le bytes.length

/-- The wire form of a record of a fixed size has that many bytes, if they can be counted. -/
theorem RootForm.length_eq_of_fixedSize (hcount : bytes.length ≤ maxCount) :
    bytes.length = size :=
  (wrapCount_of_le hcount).symm.trans (WireForm.wrapCount_length_eq_of_fixedSize hsums h hsize)

end FixedSize

/-! ## Writing -/

section Writing

variable {κ : Type}

/-- Values that do not pass the check are not written. -/
theorem run_encode_of_error [Sink κ] {sink : κ} {error : CodecError}
    (h : program.encodedLength limits values = .error error) :
    (program.encode limits values).run sink = (.error error, sink) := by
  rw [encode, h]
  exact run_bind_of_error (Encoding.run_ofExcept _)

/-- Values that pass the check are only written. -/
theorem RootForm.encode_eq [Sink κ] (h : program.RootForm limits values bytes) :
    (program.encode limits values : Encoding κ Nat) =
      encodeSteps program.plan program.root.name program.root.steps values >>=
        fun _ => pure bytes.length := by
  rw [encode, h.encodedLength]
  exact pure_bind bytes.length _

/-- Whatever the sink, writing values that pass the check fails only where a write fails. -/
theorem RootForm.exists_fault_of_run_encode [Sink κ] (h : program.RootForm limits values bytes)
    {sink after : κ} {error : CodecError}
    (hrun : (program.encode limits values).run sink = (.error error, after)) :
    ∃ fault, error = .stream fault := by
  rw [h.encode_eq] at hrun
  cases hsteps : (encodeSteps program.plan program.root.name program.root.steps values).run
    sink with
  | mk outcome reached =>
    cases outcome with
    | ok _ =>
      rw [run_bind_of_ok hsteps] at hrun
      cases hrun
    | error failure =>
      rw [run_bind_of_error hsteps] at hrun
      cases hrun
      exact (WireForm.writes_encodeSteps h _).exists_fault hsteps

variable [LawfulSink κ] {sink after : κ}

theorem RootForm.run_encode (h : program.RootForm limits values bytes)
    (hroom : bytes.length ≤ Sink.capacity sink) :
    (program.encode limits values).run sink =
      (.ok bytes.length, LawfulSink.append bytes sink) := by
  have hsteps : (encodeSteps program.plan program.root.name program.root.steps values).run sink =
      (.ok (), LawfulSink.append bytes sink) :=
    (WireForm.writes_encodeSteps h _).run_of_le hroom
  rw [h.encode_eq]
  exact run_bind_of_ok hsteps

/-- In a sink with too little room, the first write that does not fit fails, and those before it
stand there. -/
theorem RootForm.run_encode_of_lt (h : program.RootForm limits values bytes)
    (hfull : Sink.capacity sink < bytes.length) :
    ∃ before next, before ++ next <+: bytes ∧
      before.length ≤ Sink.capacity sink ∧ Sink.capacity sink < (before ++ next).length ∧
      (program.encode limits values).run sink =
        (.error (.stream (.overflow next.length (Sink.capacity sink - before.length))),
          LawfulSink.append before sink) := by
  obtain ⟨before, next, hprefix, hbefore, hnext, hsteps⟩ :=
    (WireForm.writes_encodeSteps h program.root.name).run_of_lt hfull
  refine ⟨before, next, hprefix, hbefore, hnext, ?_⟩
  rw [h.encode_eq]
  exact run_bind_of_error hsteps

/-- What was written is a wire form of the values, behind what was there before. -/
theorem exists_rootForm_of_run_encode (hprogram : program.WellFormed)
    (hrun : (program.encode limits values).run sink = (.ok length, after)) :
    ∃ bytes, program.RootForm limits values bytes ∧ bytes.length = length ∧
      bytes.length ≤ Sink.capacity sink ∧ after = LawfulSink.append bytes sink := by
  have hencode := hrun
  rw [encode] at hrun
  obtain ⟨checked, reached, hcheck, hwrite⟩ := Encoding.bind_eq_ok_iff.1 hrun
  rw [Encoding.run_ofExcept] at hcheck
  obtain ⟨hlength, rfl⟩ := Prod.mk.inj hcheck
  obtain ⟨bytes, hform, rfl⟩ := exists_rootForm hprogram hlength
  obtain ⟨_, written, hsteps, hreturn⟩ := Encoding.bind_eq_ok_iff.1 hwrite
  have hroom := (WireForm.writes_encodeSteps hform _).le_of_run hsteps
  rw [hform.run_encode hroom] at hencode
  cases hencode
  exact ⟨bytes, hform, rfl, hroom, rfl⟩

end Writing

/-! ## Reading -/

section Reading

open LawfulSource

variable {σ : Type} [LawfulSource σ] {source : σ} {unread : List UInt8}

theorem RootForm.run_decodeUnchecked (hprogram : program.WellFormed)
    (h : program.RootForm limits values bytes) (hrest : rest source = bytes ++ unread) :
    (program.decodeUnchecked limits).run source =
      some (.ok values, skip bytes.length source) := by
  obtain ⟨least, hleast⟩ := exists_budget_of_wireForm σ h
  have hrun : (decodeRecord program.plan limits (least + 1) 0 0).run source =
      some (.ok values, skip bytes.length source) :=
    hleast least (Nat.le_refl least) program.root.name hrest
  exact run_decodeUnchecked_of_decodeRecord hprogram.inhabited hprogram.inRange hrun

theorem RootForm.run_decodeChecked (hprogram : program.WellFormed)
    (h : program.RootForm limits values bytes) (hrest : rest source = bytes ++ unread) :
    (program.decodeChecked limits).run source =
      some (.ok values, skip bytes.length source) := by
  rw [← h.run_decodeUnchecked hprogram hrest]
  cases hsize : program.root.fixedSize with
  | none => exact run_decodeChecked_of_none hsize
  | some size =>
    have hlong : size ≤ Source.remaining source := by
      rw [LawfulSource.remaining_eq, hrest, List.length_append]
      exact (h.le_length_of_fixedSize hprogram.sums hsize).trans (Nat.le_add_right _ _)
    rw [run_decodeChecked_of_some hsize, if_neg (Nat.not_lt.2 hlong)]

end Reading

end Program

end RecordCodec
