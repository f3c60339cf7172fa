import RecordCodec.Proofs.Plan.Encoding
import RecordCodec.Proofs.Plan.WellFormed
import RecordCodec.Proofs.Wire.Form

/-!
# Checking and writing wire forms

Checking values gives the length of their wire form, and writing them writes exactly the wire form.
Conversely, values that pass the check have a wire form, provided that no enum has more variants
than one byte can tell apart.
-/

namespace RecordCodec

open BigEndian

/-! ## Leaves -/

theorem Utf8.length_encode (text : String) : (Utf8.encode text).length = text.utf8ByteSize := by
  rw [encode, Array.length_toList]
  rfl

theorem effectiveLength_le (limits : Limits) : limits.effectiveLength ≤ maxVariableLength :=
  Nat.min_le_right _ _

section Leaves

variable {limits : Limits} {leaf : Leaf} {value : Value} {bytes : List UInt8}
variable (record field : String)

theorem unsignedLength_eq_ok_iff {width : Width} {value : Int64} {length : Nat} :
    unsignedLength record field width value = .ok length ↔
      (0 ≤ value.toInt ∧ value.toInt ≤ width.maxValue) ∧ width.bytes = length := by
  rw [unsignedLength, narrow_eq]
  by_cases hrange : 0 ≤ value.toInt ∧ value.toInt ≤ width.maxValue <;> simp [hrange]

theorem variableLength_eq_ok_iff {length written : Nat} :
    variableLength record field limits length = .ok written ↔
      length ≤ limits.effectiveLength ∧ 2 + length = written := by
  rw [variableLength]
  by_cases hlimit : limits.effectiveLength < length
  · simp [hlimit, Nat.not_le.2 hlimit]
  · simp [hlimit, Nat.not_lt.1 hlimit]

/-- Checking a leaf gives the length of its wire form. -/
theorem Leaf.WireForm.encodedLength (h : leaf.WireForm limits value bytes) :
    leaf.encodedLength record field limits value = .ok bytes.length := by
  cases h with
  | unsigned32 hrange =>
    rw [BigEndian.length_encode]
    exact (unsignedLength_eq_ok_iff record field).2 ⟨by rwa [Int32.toInt_toInt64], rfl⟩
  | unsigned64 hrange =>
    rw [BigEndian.length_encode]
    exact (unsignedLength_eq_ok_iff record field).2 ⟨hrange, rfl⟩
  | enum hvariant =>
    rw [BigEndian.length_encode]
    exact if_pos hvariant
  | text hlength =>
    rw [List.length_append, BigEndian.length_encode, Utf8.length_encode]
    rw [Utf8.length_encode] at hlength
    exact (variableLength_eq_ok_iff record field).2 ⟨hlength, rfl⟩
  | bytes hlength =>
    rw [List.length_append, BigEndian.length_encode]
    exact (variableLength_eq_ok_iff record field).2 ⟨hlength, rfl⟩
  | _ => rw [BigEndian.length_encode]; rfl

/-- A value that passes the check of a leaf has a wire form. -/
theorem Leaf.exists_wireForm {length : Nat} (hadmissible : leaf.Admissible)
    (h : leaf.encodedLength record field limits value = .ok length) :
    ∃ bytes, leaf.WireForm limits value bytes ∧ bytes.length = length := by
  unfold Leaf.encodedLength at h
  split at h
  · cases h; exact ⟨_, .int8 _, BigEndian.length_encode _ _⟩
  · cases h; exact ⟨_, .int16 _, BigEndian.length_encode _ _⟩
  · cases h; exact ⟨_, .int32 _, BigEndian.length_encode _ _⟩
  · cases h; exact ⟨_, .int64 _, BigEndian.length_encode _ _⟩
  · cases h; exact ⟨_, .float32 _, BigEndian.length_encode _ _⟩
  · cases h; exact ⟨_, .float64 _, BigEndian.length_encode _ _⟩
  · cases h; exact ⟨_, .char16 _, BigEndian.length_encode _ _⟩
  · obtain ⟨hrange, rfl⟩ := (unsignedLength_eq_ok_iff record field).1 h
    rw [Int32.toInt_toInt64] at hrange
    exact ⟨_, .unsigned32 hrange, BigEndian.length_encode _ _⟩
  · obtain ⟨hrange, rfl⟩ := (unsignedLength_eq_ok_iff record field).1 h
    exact ⟨_, .unsigned64 hrange, BigEndian.length_encode _ _⟩
  · rename_i variants ordinal
    split at h
    · rename_i hvariant
      cases h
      have hbyte : ordinal < UInt8.size :=
        Nat.lt_trans hvariant (Nat.lt_succ_of_le hadmissible)
      exact ⟨_, .enum hvariant hbyte, BigEndian.length_encode _ _⟩
    · cases h
  · obtain ⟨hlength, rfl⟩ := (variableLength_eq_ok_iff record field).1 h
    rw [← Utf8.length_encode] at hlength ⊢
    refine ⟨_, .text hlength, ?_⟩
    rw [List.length_append, BigEndian.length_encode]
  · obtain ⟨hlength, rfl⟩ := (variableLength_eq_ok_iff record field).1 h
    refine ⟨_, .bytes hlength, ?_⟩
    rw [List.length_append, BigEndian.length_encode]
  · cases h

variable {κ : Type} [Sink κ]

open Encoding

theorem writes_writeVariable {string : List UInt8} (hlength : string.length ≤ maxVariableLength) :
    Writes (encode 2 string.length ++ string)
      (writeVariable record field string : Encoding κ Unit) := by
  have hword : string.length.toUInt16.toNat = string.length :=
    UInt16.toNat_ofNat_of_lt (Nat.lt_succ_of_le hlength)
  rw [writeVariable, if_neg (Nat.not_lt.2 hlength), Sink.writeUInt16, Sink.writeNat, hword]
  exact (Writes.writeBytes _).append (Writes.writeBytes string)

/-- Writing a leaf writes its wire form. -/
theorem Leaf.WireForm.writes_encode (h : leaf.WireForm limits value bytes) :
    Writes bytes (leaf.encode record field value : Encoding κ Unit) := by
  cases h with
  | unsigned32 hrange =>
    rw [← Int32.toInt_toInt64] at hrange ⊢
    rw [Leaf.encode, Sink.writeUnsigned_of_le hrange]
    exact Writes.writeBytes _
  | unsigned64 hrange =>
    rw [Leaf.encode, Sink.writeUnsigned_of_le hrange]
    exact Writes.writeBytes _
  | @enum variants ordinal hvariant hbyte =>
    have hordinal : ordinal.toUInt8.toNat = ordinal := UInt8.toNat_ofNat_of_lt hbyte
    rw [Leaf.encode, if_pos hbyte, Sink.writeUInt8, Sink.writeNat, hordinal]
    exact Writes.writeBytes _
  | text hlength =>
    exact writes_writeVariable record field (Nat.le_trans hlength (effectiveLength_le limits))
  | bytes hlength =>
    exact writes_writeVariable record field (Nat.le_trans hlength (effectiveLength_le limits))
  | _ => exact Writes.writeBytes _

end Leaves

/-! ## Records -/

section Records

variable {ρ : Type} {planOf : ρ → Plan ρ} {limits : Limits}

theorem stepLength_of_leaf {record : String} {depth : Nat} {step : Step ρ} {kind : Leaf}
    (hwire : step.wire = .leaf kind) (value : Value) :
    stepLength planOf limits record depth step value =
      kind.encodedLength record step.field limits value := by
  cases value <;> simp only [stepLength, hwire]

theorem stepLength_of_nested {record : String} {depth : Nat} {step : Step ρ} {target : ρ}
    (hwire : step.wire = .nested target) (fields : List Value) :
    stepLength planOf limits record depth step (.record fields) = (do
      let inner ← limits.enter (planOf target).cyclic depth
      recordLength planOf limits target inner fields) := by
  simp only [stepLength, hwire]
  rfl

theorem encodeStep_of_leaf {κ : Type} [Sink κ] {record : String} {step : Step ρ} {kind : Leaf}
    (hwire : step.wire = .leaf kind) (value : Value) :
    (encodeStep planOf record step value : Encoding κ Unit) =
      kind.encode record step.field value := by
  cases value <;> simp only [encodeStep, hwire]

theorem encodeStep_of_nested {κ : Type} [Sink κ] {record : String} {step : Step ρ} {target : ρ}
    (hwire : step.wire = .nested target) (fields : List Value) :
    (encodeStep planOf record step (.record fields) : Encoding κ Unit) =
      encodeSteps planOf (planOf target).name (planOf target).steps fields := by
  simp only [encodeStep, hwire]

theorem checkCount_eq_ok_iff {plan : Plan ρ} {values : List Value} :
    plan.checkCount values = .ok () ↔ values.length = plan.steps.length := by
  rw [Plan.checkCount]
  by_cases hcount : values.length = plan.steps.length <;> simp [hcount]

theorem recordLength_eq_ok_iff {record : ρ} {depth : Nat} {values : List Value} {length : Nat} :
    recordLength planOf limits record depth values = .ok length ↔
      values.length = (planOf record).steps.length ∧
        stepsLength planOf limits (planOf record).name depth (planOf record).steps values =
          .ok length := by
  rw [recordLength, Outcome.bind_eq_ok_iff, ← checkCount_eq_ok_iff]
  constructor
  · rintro ⟨_, hcount, hlength⟩
    exact ⟨hcount, hlength⟩
  · rintro ⟨hcount, hlength⟩
    exact ⟨(), hcount, hlength⟩

theorem stepsLength_cons_eq_ok_iff {record : String} {depth : Nat} {step : Step ρ}
    {steps : List (Step ρ)} {value : Value} {values : List Value} {length : Nat} :
    stepsLength planOf limits record depth (step :: steps) (value :: values) = .ok length ↔
      ∃ first rest, stepLength planOf limits record depth step value = .ok first ∧
        stepsLength planOf limits record depth steps values = .ok rest ∧ first + rest = length := by
  rw [stepsLength, Outcome.bind_eq_ok_iff]
  constructor
  · rintro ⟨first, hfirst, hnext⟩
    obtain ⟨rest, hrest, hsum⟩ := Outcome.bind_eq_ok_iff.1 hnext
    exact ⟨first, rest, hfirst, hrest, Except.ok.inj hsum⟩
  · rintro ⟨first, rest, hfirst, hrest, rfl⟩
    exact ⟨first, hfirst, Outcome.bind_eq_ok_iff.2 ⟨rest, hrest, rfl⟩⟩

/-- Checking the values of some steps gives the length of their wire form. -/
theorem WireForm.stepsLength {depth : Nat} {steps : List (Step ρ)} {values : List Value}
    {bytes : List UInt8} (h : WireForm planOf limits depth steps values bytes) (record : String) :
    stepsLength planOf limits record depth steps values = .ok bytes.length := by
  induction h generalizing record with
  | nil => rfl
  | @leaf depth step steps kind value values bytes others hwire hvalue _ ih =>
    rw [stepsLength_cons_eq_ok_iff, List.length_append, stepLength_of_leaf hwire]
    exact ⟨_, _, hvalue.encodedLength record step.field, ih record, rfl⟩
  | nested hwire henter hfields _ ihfields ih =>
    rw [stepsLength_cons_eq_ok_iff, List.length_append, stepLength_of_nested hwire]
    refine ⟨_, _, ?_, ih record, rfl⟩
    rw [henter]
    exact recordLength_eq_ok_iff.2 ⟨hfields.length_values, ihfields _⟩

/-- Writing the values of some steps writes their wire form. -/
theorem WireForm.writes_encodeSteps {κ : Type} [Sink κ] {depth : Nat} {steps : List (Step ρ)}
    {values : List Value} {bytes : List UInt8}
    (h : WireForm planOf limits depth steps values bytes) (record : String) :
    Encoding.Writes bytes (encodeSteps planOf record steps values : Encoding κ Unit) := by
  induction h generalizing record with
  | nil => exact .nil
  | @leaf depth step steps kind value values bytes others hwire hvalue _ ih =>
    rw [encodeSteps, encodeStep_of_leaf hwire]
    exact (hvalue.writes_encode record step.field).append (ih record)
  | nested hwire _ _ _ ihfields ih =>
    rw [encodeSteps, encodeStep_of_nested hwire]
    exact (ihfields _).append (ih record)

mutual

private theorem exists_wireForm_of_stepLength (hplans : AdmissiblePlans planOf) (record : String)
    (depth : Nat) (step : Step ρ) (hstep : ∀ kind, step.wire = .leaf kind → kind.Admissible)
    (value : Value) {length : Nat}
    (hlength : stepLength planOf limits record depth step value = .ok length) :
    ∃ bytes, bytes.length = length ∧ ∀ {steps values others},
      WireForm planOf limits depth steps values others →
      WireForm planOf limits depth (step :: steps) (value :: values) (bytes ++ others) := by
  cases hwire : step.wire with
  | leaf kind =>
    rw [stepLength_of_leaf hwire] at hlength
    obtain ⟨bytes, hform, hbytes⟩ :=
      Leaf.exists_wireForm record step.field (hstep kind hwire) hlength
    exact ⟨bytes, hbytes, .leaf hwire hform⟩
  | nested target =>
    cases value with
    | record fields =>
      rw [stepLength_of_nested hwire] at hlength
      obtain ⟨inner, henter, hrecord⟩ := Outcome.bind_eq_ok_iff.1 hlength
      obtain ⟨hcount, hfields⟩ := recordLength_eq_ok_iff.1 hrecord
      obtain ⟨bytes, hform, hbytes⟩ :=
        exists_wireForm_of_stepsLength hplans _ inner _ (hplans target) fields hcount hfields
      exact ⟨bytes, hbytes, .nested hwire henter hform⟩
    | _ => simp [stepLength, hwire] at hlength

/-- Values that pass the check have a wire form of the length that the check gives. -/
theorem exists_wireForm_of_stepsLength (hplans : AdmissiblePlans planOf) (record : String)
    (depth : Nat) (steps : List (Step ρ))
    (hsteps : ∀ step ∈ steps, ∀ kind, step.wire = .leaf kind → kind.Admissible)
    (values : List Value) (hcount : values.length = steps.length) {length : Nat}
    (hlength : stepsLength planOf limits record depth steps values = .ok length) :
    ∃ bytes, WireForm planOf limits depth steps values bytes ∧ bytes.length = length := by
  cases values with
  | nil =>
    obtain rfl : steps = [] := List.length_eq_zero_iff.1 hcount.symm
    cases hlength
    exact ⟨[], .nil depth, rfl⟩
  | cons value values =>
    obtain ⟨step, steps, rfl⟩ : ∃ step others, steps = step :: others :=
      List.exists_cons_of_length_eq_add_one hcount.symm
    obtain ⟨first, rest, hfirst, hrest, rfl⟩ := stepsLength_cons_eq_ok_iff.1 hlength
    obtain ⟨bytes, hbytes, hform⟩ := exists_wireForm_of_stepLength hplans record depth step
      (hsteps step List.mem_cons_self) value hfirst
    obtain ⟨others, hothers, hlengthOthers⟩ := exists_wireForm_of_stepsLength hplans record depth
      steps (fun other hmem => hsteps other (List.mem_cons_of_mem _ hmem)) values
      (Nat.succ.inj hcount) hrest
    exact ⟨bytes ++ others, hform hothers, by rw [List.length_append, hbytes, hlengthOthers]⟩

end

end Records

end RecordCodec
