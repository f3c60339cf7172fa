import RecordCodec.Proofs.Plan.Decoding
import RecordCodec.Proofs.Plan.WellFormed
import RecordCodec.Proofs.Stream.Reading

/-!
# What reading can fail with

Reading by a plan whose leaves are admissible fails only because of the source or the limits.  It
never finds the parts of the plan in contradiction: its only check of that kind is of a 32-bit field
that travels unsigned, and any number of one or two bytes fits such a field.
-/

namespace RecordCodec

/-- The error is not that the parts of a plan contradict each other. -/
def CodecError.Ordinary : CodecError → Prop
  | generationFailure _ _ => False
  | _ => True

/-- The error is one that reading an admissible leaf may end with. -/
def CodecError.FoundInLeaf : CodecError → Prop
  | stream _ | limitExceeded .variableLength _ _ | ordinalOutOfRange _ _ _ _ | invalidUtf8 _ _ =>
    True
  | _ => False

def CodecError.Untransported : CodecError → Prop
  | stream (.transport _) => False
  | _ => True

/-- The error is one that reading a record may end with. -/
inductive CodecError.FoundInSource : CodecError → Prop
  | leaf {error : CodecError} : error.FoundInLeaf → FoundInSource error
  | depth (limit actual : Nat) : FoundInSource (.limitExceeded .nestingDepth limit actual)
  | short (record : String) (needed available : Nat) :
    FoundInSource (.insufficientData record needed available)

theorem CodecError.FoundInSource.ordinary {error : CodecError} (h : error.FoundInSource) :
    error.Ordinary := by
  cases h with
  | leaf hleaf =>
    cases error with
    | generationFailure => exact hleaf
    | _ => trivial
  | depth => trivial
  | short => trivial

def FailsOrdinarily {α : Type} (outcome : Except CodecError α) : Prop :=
  ∀ error, outcome = .error error → error.Ordinary

namespace Decoding

variable {σ α β γ : Type} {allowed : CodecError → Prop}

def FailsWith (allowed : CodecError → Prop) (decoding : Decoding σ α) : Prop :=
  ∀ source error after, decoding.run source = some (.error error, after) → allowed error

namespace FailsWith

theorem ofExcept {outcome : Except CodecError α}
    (h : ∀ error, outcome = .error error → allowed error) :
    FailsWith allowed (ofExcept outcome : Decoding σ α) := by
  intro source error after hrun
  cases hrun
  exact h error rfl

theorem pure (value : α) : FailsWith allowed (Pure.pure value : Decoding σ α) :=
  fun _ _ _ hrun => nomatch hrun

theorem exhausted : FailsWith allowed (exhausted : Decoding σ α) := by
  intro source error after hrun
  cases hrun

theorem mono {allowed' : CodecError → Prop} {decoding : Decoding σ α}
    (h : FailsWith allowed decoding) (himp : ∀ error, allowed error → allowed' error) :
    FailsWith allowed' decoding :=
  fun source error after hrun => himp error (h source error after hrun)

theorem ofReading {reading : Reading σ α}
    (h : ∀ source fault after, reading.run source = (.error fault, after) →
      allowed (.stream fault)) :
    FailsWith allowed (ofReading reading) := by
  intro source error after hrun
  rw [run_ofReading] at hrun
  generalize hreading : reading.run source = result at hrun
  rcases result with ⟨outcome, reached⟩
  cases outcome with
  | error fault =>
    cases hrun
    exact h source fault reached hreading
  | ok value => cases hrun

/-- What follows may rely on what can be read first. -/
theorem bind {first : Decoding σ α} {next : α → Decoding σ β} (hfirst : FailsWith allowed first)
    (hnext : ∀ value, (∃ source after, first.run source = some (.ok value, after)) →
      FailsWith allowed (next value)) :
    FailsWith allowed (first >>= next) := by
  intro source error after hrun
  cases hstart : first.run source with
  | none =>
    rw [run_bind_of_none hstart] at hrun
    cases hrun
  | some result =>
    rcases result with ⟨outcome, reached⟩
    cases outcome with
    | error inner =>
      rw [run_bind_of_error hstart] at hrun
      cases hrun
      exact hfirst source error after hstart
    | ok value =>
      rw [run_bind_of_ok hstart] at hrun
      exact hnext value ⟨source, reached, hstart⟩ reached error after hrun

theorem map {first : Decoding σ α} (f : α → β) (h : FailsWith allowed first) :
    FailsWith allowed (f <$> first) := by
  rw [map_eq_pure_bind]
  exact h.bind fun value _ => pure (f value)

theorem mapM {f : γ → Decoding σ α} {items : List γ}
    (h : ∀ item ∈ items, FailsWith allowed (f item)) : FailsWith allowed (items.mapM f) := by
  induction items with
  | nil =>
    rw [List.mapM_nil]
    exact pure []
  | cons item items ih =>
    rw [List.mapM_cons]
    exact (h item List.mem_cons_self).bind fun _ _ =>
      (ih fun other hmem => h other (List.mem_cons_of_mem _ hmem)).bind fun _ _ => pure _

end FailsWith

end Decoding

/-! ## Reading by a plan -/

open Decoding

/-- Whatever makes a read of the source fail is allowed, and so is every error that only the bytes
of a leaf may give. -/
structure CoversReading (σ : Type) [Source σ] (allowed : CodecError → Prop) : Prop where
  read : ∀ {α : Type} {count : Nat} {reading : Reading σ α}, reading.Takes count →
    FailsWith allowed (Decoding.ofReading reading)
  tooLong : ∀ limit actual, allowed (.limitExceeded .variableLength limit actual)
  outOfRange : ∀ record field ordinal variants,
    allowed (.ordinalOutOfRange record field ordinal variants)
  notUtf8 : ∀ record field, allowed (.invalidUtf8 record field)

/-- A read that a lawful source refuses came upon the end of it. -/
theorem coversReading_of_lawful {σ : Type} [LawfulSource σ] :
    CoversReading σ CodecError.Untransported where
  read {_ count _} htakes := by
    refine .ofReading fun source fault after hrun => ?_
    rcases Nat.lt_or_ge (LawfulSource.rest source).length count with hshort | hlong
    · rw [LawfulSource.run_of_lt htakes hshort] at hrun
      cases hrun
      trivial
    · obtain ⟨value, hvalue⟩ := LawfulSource.run_of_le htakes hlong
      rw [hvalue] at hrun
      cases hrun
  tooLong _ _ := trivial
  outOfRange _ _ _ _ := trivial
  notUtf8 _ _ := trivial

variable {σ ρ : Type} [Source σ] {limits : Limits} {allowed : CodecError → Prop}

theorem coversReading_foundInLeaf : CoversReading σ CodecError.FoundInLeaf where
  read _ := .ofReading fun _ _ _ _ => trivial
  tooLong _ _ := trivial
  outOfRange _ _ _ _ := trivial
  notUtf8 _ _ := trivial

theorem readVariable_failsWith (h : CoversReading σ allowed) :
    FailsWith allowed (readVariable limits : Decoding σ (List UInt8)) := by
  apply (h.read Source.takes_readUInt16).bind
  intro announced _
  by_cases hlimit : limits.effectiveLength < announced.toNat
  · simp only [hlimit, if_true]
    have hrefused : FailsWith allowed (throw (.limitExceeded .variableLength
        limits.effectiveLength announced.toNat) : Decoding σ PUnit) :=
      .ofExcept fun error heq => Except.error.inj heq ▸ h.tooLong _ _
    exact hrefused.bind fun _ _ => h.read (Source.takes_readBytes _)
  · simp only [hlimit, if_false]
    exact h.read (Source.takes_readBytes _)

/-- A number of at most two bytes fits a 32-bit field. -/
theorem toInt_le_of_readUnsigned {width : Width} {value : Int64} {source after : σ}
    (hwidth : width ≠ .u32)
    (hread : (Source.readUnsigned width).run source = (.ok value, after)) :
    value.toInt ≤ Int32.maxValue.toInt := by
  obtain ⟨⟨-, hmax⟩, -⟩ := Source.readUnsigned_eq_ok_iff.1 hread
  calc
    value.toInt ≤ width.maxValue := hmax
    _ ≤ Int32.maxValue.toInt := by cases width <;> first | decide | exact absurd rfl hwidth

/-- Reading a leaf fails with errors that are covered, unless the leaf is not admissible. -/
theorem Leaf.decode_failsWith (h : CoversReading σ allowed) {leaf : Leaf}
    (hleaf : leaf.Admissible ∨ ∀ record reason, allowed (.generationFailure record reason))
    (record field : String) :
    FailsWith allowed (leaf.decode record field limits : Decoding σ Value) := by
  cases leaf with
  | int8 => exact (h.read Source.takes_readInt8).map _
  | int16 => exact (h.read Source.takes_readInt16).map _
  | int32 => exact (h.read Source.takes_readInt32).map _
  | int64 => exact (h.read Source.takes_readInt64).map _
  | float32 => exact (h.read Source.takes_readUInt32).map _
  | float64 => exact (h.read Source.takes_readUInt64).map _
  | char16 => exact (h.read Source.takes_readUInt16).map _
  | unsigned64 width => exact (h.read (Source.takes_readUnsigned width)).map _
  | unsigned32 width =>
    apply (h.read (Source.takes_readUnsigned width)).bind
    rintro wide ⟨source, after, hwide⟩
    by_cases hfits : wide.toInt ≤ Int32.maxValue.toInt
    · simp only [hfits, if_true]
      exact .pure _
    · simp only [hfits, if_false]
      rcases hleaf with hadmissible | hmismatch
      · exact absurd (toInt_le_of_readUnsigned hadmissible
          (Decoding.ofReading_eq_ok_iff.1 hwide)) hfits
      · exact .ofExcept fun error heq => Except.error.inj heq ▸ hmismatch _ _
  | enum variants =>
    apply (h.read Source.takes_readUInt8).bind
    intro byte _
    by_cases hvariant : byte.toNat < variants
    · simp only [hvariant, if_true]
      exact .pure _
    · simp only [hvariant, if_false]
      exact .ofExcept fun error heq => Except.error.inj heq ▸ h.outOfRange _ _ _ _
  | text =>
    apply (readVariable_failsWith h).bind
    intro string _
    cases Utf8.decode? string with
    | none => exact .ofExcept fun error heq => Except.error.inj heq ▸ h.notUtf8 _ _
    | some text => exact .pure _
  | bytes => exact (readVariable_failsWith h).map _

theorem Leaf.decode_finds {leaf : Leaf} (hleaf : leaf.Admissible) (record field : String) :
    FailsWith CodecError.FoundInLeaf (leaf.decode record field limits : Decoding σ Value) :=
  Leaf.decode_failsWith coversReading_foundInLeaf (.inl hleaf) record field

theorem Limits.exists_of_enter_eq_error {cyclic : Bool} {depth : Nat} {error : CodecError}
    (h : limits.enter cyclic depth = .error error) :
    ∃ limit actual, error = .limitExceeded .nestingDepth limit actual := by
  unfold enter at h
  cases cyclic with
  | false => cases h
  | true =>
    by_cases hdeep : limits.nestingDepth < min (depth + 1) maxCount
    · simp only [hdeep, if_true] at h
      cases h
      exact ⟨_, _, rfl⟩
    · simp only [hdeep, if_true, if_false] at h
      cases h

theorem Limits.enter_finds {cyclic : Bool} {depth : Nat} {error : CodecError}
    (h : limits.enter cyclic depth = .error error) : error.FoundInSource := by
  obtain ⟨limit, actual, rfl⟩ := exists_of_enter_eq_error h
  exact .depth limit actual

/-- Reading a record fails as reading its leaves does, or at the depth limit. -/
theorem decodeRecord_failsWith_of_leaves {planOf : ρ → Plan ρ}
    (hleaf : ∀ record, ∀ step ∈ (planOf record).steps, ∀ kind, step.wire = .leaf kind →
      ∀ name, FailsWith allowed (kind.decode name step.field limits : Decoding σ Value))
    (hdepth : ∀ limit actual, allowed (.limitExceeded .nestingDepth limit actual))
    (budget : Nat) (record : ρ) (depth : Nat) :
    FailsWith allowed
      (decodeRecord planOf limits budget record depth : Decoding σ (List Value)) := by
  induction budget generalizing record depth with
  | zero => exact .exhausted
  | succ budget ih =>
    apply FailsWith.mapM
    intro step hstep
    cases hwire : step.wire with
    | leaf kind =>
      rw [decodeStep_of_leaf hwire]
      exact hleaf record step hstep kind hwire _
    | nested target =>
      rw [decodeStep_of_nested hwire]
      refine (FailsWith.ofExcept fun error henter => ?_).bind fun inner _ => (ih target inner).map _
      obtain ⟨limit, actual, rfl⟩ := Limits.exists_of_enter_eq_error henter
      exact hdepth limit actual

/-- Reading a record by admissible plans, whatever the source and the budget, fails because of the
source or the limits. -/
theorem decodeRecord_finds {planOf : ρ → Plan ρ} (hplans : AdmissiblePlans planOf)
    (budget : Nat) (record : ρ) (depth : Nat) :
    FailsWith CodecError.FoundInSource
      (decodeRecord planOf limits budget record depth : Decoding σ (List Value)) := by
  refine decodeRecord_failsWith_of_leaves (fun record step hstep kind hwire name => ?_) .depth
    budget record depth
  exact (Leaf.decode_finds (hplans record step hstep kind hwire) name step.field).mono
    fun _ => .leaf

/-- Reading a record by admissible plans, whatever the source and the budget, does not find the
plans in contradiction. -/
theorem decodeRecord_failsWith {planOf : ρ → Plan ρ} (hplans : AdmissiblePlans planOf)
    (budget : Nat) (record : ρ) (depth : Nat) :
    FailsWith CodecError.Ordinary
      (decodeRecord planOf limits budget record depth : Decoding σ (List Value)) :=
  (decodeRecord_finds hplans budget record depth).mono fun _ => CodecError.FoundInSource.ordinary

namespace Program

variable {program : Program}

theorem decodeUnchecked_finds (hplans : AdmissiblePlans program.plan) :
    FailsWith CodecError.FoundInSource (program.decodeUnchecked limits : Decoding σ (List Value)) :=
  fun source => decodeRecord_finds hplans _ 0 0 source

/-- Checked reading fails as unchecked reading does, or because the source is too short. -/
theorem decodeChecked_failsWith
    (h : FailsWith allowed (program.decodeUnchecked limits : Decoding σ (List Value)))
    (hshort : ∀ record needed available, allowed (.insufficientData record needed available)) :
    FailsWith allowed (program.decodeChecked limits : Decoding σ (List Value)) := by
  intro source error after hrun
  cases hsize : program.root.fixedSize with
  | none =>
    rw [run_decodeChecked_of_none hsize] at hrun
    exact h source error after hrun
  | some size =>
    rw [run_decodeChecked_of_some hsize] at hrun
    by_cases hlack : Source.remaining source < size
    · rw [if_pos hlack] at hrun
      cases hrun
      exact hshort _ _ _
    · rw [if_neg hlack] at hrun
      exact h source error after hrun

theorem decodeChecked_finds (hplans : AdmissiblePlans program.plan) :
    FailsWith CodecError.FoundInSource
      (program.decodeChecked limits : Decoding σ (List Value)) :=
  decodeChecked_failsWith (decodeUnchecked_finds hplans) .short

/-- Reading from a source that holds its bytes never fails for want of a transport, whatever the
plans are. -/
theorem decodeUnchecked_untransported {σ : Type} [LawfulSource σ] :
    FailsWith CodecError.Untransported
      (program.decodeUnchecked limits : Decoding σ (List Value)) := by
  intro source
  refine decodeRecord_failsWith_of_leaves (fun record step _ kind _ name => ?_)
    (fun _ _ => trivial) _ 0 0 source
  exact Leaf.decode_failsWith coversReading_of_lawful (.inr fun _ _ => trivial) name step.field

end Program

end RecordCodec
