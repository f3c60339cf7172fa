import RecordCodec.Proofs.Plan.WellFormed
import RecordCodec.Proofs.Wire.Reading

/-!
# Records of a fixed size

Verification looks at one plan at a time and takes the sizes of nested records from their plans.
That is enough: where every plan adds up, the wire form of a record of a fixed size has that many
bytes, however deep its nesting.  So it has if the size was cut off, up to what is cut off from the
number of bytes.  Reading never meets the end of a source that holds as many, if no sum was cut off.
-/

namespace RecordCodec

open LawfulSource

section Lengths

variable {program : Program} {limits : Limits}

theorem Program.stepWidth_of_leaf {step : Step Nat} {kind : Leaf} (hwire : step.wire = .leaf kind) :
    program.stepWidth step = kind.width? := by
  rw [Program.stepWidth, hwire]

theorem Program.stepWidth_of_nested {step : Step Nat} {target : Nat}
    (hwire : step.wire = .nested target) :
    program.stepWidth step = (program.plan target).fixedSize := by
  rw [Program.stepWidth, hwire]

/-- The wire form of the values of some steps is as long as the steps are wide, as counts go. -/
theorem WireForm.wrapCount_length (hsums : program.Sums) {depth total : Nat}
    {steps : List (Step Nat)} {values : List Value} {bytes : List UInt8}
    (h : WireForm program.plan limits depth steps values bytes)
    (htotal : totalWidth (steps.map program.stepWidth) = some total) :
    wrapCount bytes.length = wrapCount total := by
  induction h generalizing total with
  | nil =>
    cases htotal
    rfl
  | leaf hwire hvalue _ ih =>
    obtain ⟨first, others, hfirst, hothers, rfl⟩ := totalWidth_cons_eq_some_iff.1 htotal
    rw [Program.stepWidth_of_leaf hwire] at hfirst
    rw [List.length_append, hvalue.length_eq_of_width? hfirst, ← wrapCount_add_wrapCount,
      ih hothers, wrapCount_add_wrapCount]
  | nested hwire _ _ _ ihfields ih =>
    obtain ⟨first, others, hfirst, hothers, rfl⟩ := totalWidth_cons_eq_some_iff.1 htotal
    rw [Program.stepWidth_of_nested hwire] at hfirst
    obtain ⟨inner, hinner, rfl⟩ := Program.stepsWidth_eq_some_iff.1 (hsums _ _ hfirst)
    rw [List.length_append, ← wrapCount_wrapCount_add, ihfields hinner, ← wrapCount_add_wrapCount,
      ih hothers, wrapCount_add_wrapCount]

/-- The wire form of a record of a fixed size has that many bytes, as counts go. -/
theorem WireForm.wrapCount_length_eq_of_fixedSize (hsums : program.Sums) {target depth size : Nat}
    {values : List Value} {bytes : List UInt8}
    (h : WireForm program.plan limits depth (program.plan target).steps values bytes)
    (hsize : (program.plan target).fixedSize = some size) : wrapCount bytes.length = size := by
  obtain ⟨total, htotal, hwrap⟩ := Program.stepsWidth_eq_some_iff.1 (hsums target size hsize)
  exact (h.wrapCount_length hsums htotal).trans hwrap

end Lengths

/-! ## Reading within the size -/

namespace Decoding

variable {σ α β : Type} [LawfulSource σ]

/-- Where `size` bytes are left, the computation meets no fault of the stream, and if it succeeds it
has read just these bytes. -/
def Spans (size : Nat) (decoding : Decoding σ α) : Prop :=
  ∀ source outcome after, size ≤ (rest source).length →
    decoding.run source = some (outcome, after) →
    (∀ error, outcome ≠ .error (.stream error)) ∧
      ∀ value, outcome = .ok value → after = skip size source

namespace Spans

theorem ofExcept (outcome : Except CodecError α)
    (h : ∀ error, outcome ≠ .error (.stream error)) :
    Spans 0 (ofExcept outcome : Decoding σ α) := by
  intro source _ _ _ hrun
  cases hrun
  exact ⟨h, fun _ _ => (skip_zero source).symm⟩

theorem pure (value : α) : Spans 0 (Pure.pure value : Decoding σ α) :=
  ofExcept (.ok value) fun _ => nofun

theorem throw (error : CodecError) (h : ∀ fault, error ≠ .stream fault) :
    Spans 0 (MonadExcept.throw error : Decoding σ α) :=
  ofExcept (.error error) fun fault heq => h fault (Except.error.inj heq)

theorem exhausted (size : Nat) : Spans size (exhausted : Decoding σ α) := by
  intro source _ _ _ hrun
  cases hrun

theorem ofReading {count : Nat} {reading : Reading σ α} (h : reading.Takes count) :
    Spans count (ofReading reading) := by
  intro source _ _ hle hrun
  obtain ⟨value, hread⟩ := run_of_le h hle
  rw [ofReading_eq_ok_iff.2 hread] at hrun
  cases hrun
  exact ⟨fun _ => nofun, fun _ _ => rfl⟩

theorem bind {first : Decoding σ α} {next : α → Decoding σ β} {size others : Nat}
    (hfirst : Spans size first) (hnext : ∀ value, Spans others (next value)) :
    Spans (size + others) (first >>= next) := by
  intro source outcome after hle hrun
  cases hstart : first.run source with
  | none =>
    rw [run_bind_of_none hstart] at hrun
    cases hrun
  | some result =>
    rcases result with ⟨inner, reached⟩
    obtain ⟨hfault, hreached⟩ := hfirst source inner reached (by omega) hstart
    cases inner with
    | error error =>
      rw [run_bind_of_error hstart] at hrun
      cases hrun
      exact ⟨fun fault heq => hfault fault (congrArg Except.error (Except.error.inj heq)), nofun⟩
    | ok value =>
      obtain rfl := hreached value rfl
      rw [run_bind_of_ok hstart] at hrun
      have hleft : others ≤ (rest (skip size source)).length := by
        rw [rest_skip, List.length_drop]
        omega
      rw [← skip_skip]
      exact hnext value _ outcome after hleft hrun

theorem bind_zero {first : Decoding σ α} {next : α → Decoding σ β} {size : Nat}
    (hfirst : Spans size first) (hnext : ∀ value, Spans 0 (next value)) :
    Spans size (first >>= next) :=
  hfirst.bind hnext

theorem map {first : Decoding σ α} {size : Nat} (f : α → β) (h : Spans size first) :
    Spans size (f <$> first) := by
  rw [map_eq_pure_bind]
  exact h.bind_zero fun value => pure (f value)

end Spans

end Decoding

section Reading

open Decoding

variable {σ : Type} [LawfulSource σ] {limits : Limits}

variable {program : Program}

end Reading

end RecordCodec
