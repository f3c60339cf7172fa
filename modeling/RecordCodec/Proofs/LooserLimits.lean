import RecordCodec.Proofs.Plan.Decoding
import RecordCodec.Proofs.CyclicRecords

/-!
# Looser limits

Limits only ever restrict.  A run within some limits is kept in step with the run of the same
program within looser limits.  The two can part only where the first one fails because of a limit;
until then they have done the same.  So whatever is read, refused or written within some limits is
so within looser ones, unless a limit is why it was refused.
-/

namespace RecordCodec

structure Limits.Within (limits looser : Limits) : Prop where
  nestingDepth : limits.nestingDepth ≤ looser.nestingDepth
  variableLength : limits.variableLength ≤ looser.variableLength

def CodecError.ExceedsLimit : CodecError → Prop
  | limitExceeded _ _ _ => True
  | _ => False

/-- The error of a check of values that a limit stopped. -/
def CodecError.TooDeepOrLong : CodecError → Prop
  | limitExceeded .nestingDepth _ _ => True
  | invalidValue _ _ (.tooLong _ _) => True
  | _ => False

variable {α β γ σ : Type} {spared : CodecError → Prop}

/-- The outcome is a result, or an error that is not spared. -/
def Unspared (spared : CodecError → Prop) (outcome : Except CodecError α) : Prop :=
  ∀ error, outcome = .error error → ¬ spared error

theorem unspared_ok (value : α) : Unspared spared (.ok value : Except CodecError α) :=
  fun _ heq => nomatch heq

theorem unspared_error_iff {error : CodecError} :
    Unspared spared (.error error : Except CodecError α) ↔ ¬ spared error :=
  ⟨fun h => h error rfl, fun h _ heq => Except.error.inj heq ▸ h⟩

/-! ## Outcomes in step -/

/-- The outcomes are the same, unless the first is an error that is spared. -/
def SameUnless (spared : CodecError → Prop) (first second : Except CodecError α) : Prop :=
  Unspared spared first → second = first

namespace SameUnless

variable {first second : Except CodecError α}

theorem refl (outcome : Except CodecError α) : SameUnless spared outcome outcome :=
  fun _ => rfl

theorem error {error : CodecError} (h : spared error) (second : Except CodecError α) :
    SameUnless spared (.error error) second :=
  fun hunspared => absurd h (unspared_error_iff.1 hunspared)

theorem bind {next next' : α → Except CodecError β} (hfirst : SameUnless spared first second)
    (hnext : ∀ value, SameUnless spared (next value) (next' value)) :
    SameUnless spared (first >>= next) (second >>= next') := by
  intro hunspared
  cases first with
  | error error =>
    rw [hfirst (unspared_error_iff.2 (unspared_error_iff.1 hunspared))]
    rfl
  | ok value =>
    rw [hfirst (unspared_ok value)]
    exact hnext value hunspared

end SameUnless

/-! ## Readings in step -/

namespace Decoding

/-- Where `first` ends, and not with an error that is spared, `second` ends in the same way. -/
def Keeps (spared : CodecError → Prop) (first second : Decoding σ α) : Prop :=
  ∀ source outcome after, first.run source = some (outcome, after) → Unspared spared outcome →
    second.run source = some (outcome, after)

namespace Keeps

theorem refl (decoding : Decoding σ α) : Keeps spared decoding decoding :=
  fun _ _ _ hrun _ => hrun

theorem exhausted (second : Decoding σ α) : Keeps spared exhausted second :=
  fun _ _ _ hrun _ => nomatch hrun

theorem ofExcept {first second : Except CodecError α} (h : SameUnless spared first second) :
    Keeps spared (ofExcept first : Decoding σ α) (ofExcept second) := by
  intro source outcome after hrun hunspared
  cases hrun
  rw [h hunspared]
  rfl

theorem bind {first second : Decoding σ α} {next next' : α → Decoding σ β}
    (hfirst : Keeps spared first second)
    (hnext : ∀ value, Keeps spared (next value) (next' value)) :
    Keeps spared (first >>= next) (second >>= next') := by
  intro source outcome after hrun hunspared
  cases hstart : first.run source with
  | none =>
    rw [run_bind_of_none hstart] at hrun
    cases hrun
  | some result =>
    rcases result with ⟨inner, reached⟩
    cases inner with
    | error error =>
      rw [run_bind_of_error hstart] at hrun
      cases hrun
      exact run_bind_of_error (hfirst source _ _ hstart (unspared_error_iff.2 (hunspared _ rfl)))
    | ok value =>
      rw [run_bind_of_ok hstart] at hrun
      rw [run_bind_of_ok (hfirst source _ _ hstart (unspared_ok value))]
      exact hnext value reached outcome after hrun hunspared

theorem throw_bind {error : CodecError} (h : spared error) (next : α → Decoding σ β)
    (second : Decoding σ β) : Keeps spared (throw error >>= next) second := by
  intro source outcome after hrun hunspared
  rw [run_bind_of_error (run_throw error)] at hrun
  cases hrun
  exact absurd h (hunspared error rfl)

theorem map {first second : Decoding σ α} (f : α → β) (h : Keeps spared first second) :
    Keeps spared (f <$> first) (f <$> second) := by
  rw [map_eq_pure_bind, map_eq_pure_bind]
  exact h.bind fun value => refl _

theorem mapM {f g : γ → Decoding σ α} (h : ∀ item, Keeps spared (f item) (g item))
    (items : List γ) : Keeps spared (items.mapM f) (items.mapM g) := by
  induction items with
  | nil =>
    rw [List.mapM_nil, List.mapM_nil]
    exact refl _
  | cons item items ih =>
    rw [List.mapM_cons, List.mapM_cons]
    exact (h item).bind fun _ => ih.bind fun _ => refl _

end Keeps

end Decoding

namespace Limits.Within

variable {limits looser : Limits}

section

variable (hwithin : limits.Within looser)
include hwithin

theorem effectiveLength_le : limits.effectiveLength ≤ looser.effectiveLength :=
  Nat.le_min.2 ⟨Nat.le_trans (Nat.min_le_left _ _) hwithin.variableLength, Nat.min_le_right _ _⟩

/-- A length that the one lets through is let through by the other. -/
theorem not_effectiveLength_lt {length : Nat} (h : ¬ limits.effectiveLength < length) :
    ¬ looser.effectiveLength < length :=
  fun hlong => h (Nat.lt_of_le_of_lt hwithin.effectiveLength_le hlong)

/-- A depth that the one lets through is let through by the other, and counted in the same way. -/
theorem enter_sameUnless
    (hspared : ∀ limit actual, spared (.limitExceeded .nestingDepth limit actual))
    (cyclic : Bool) (depth : Nat) :
    SameUnless spared (limits.enter cyclic depth) (looser.enter cyclic depth) := by
  cases cyclic with
  | false => exact .refl _
  | true =>
    rw [enter, enter, if_pos rfl, if_pos rfl]
    by_cases hdeep : limits.nestingDepth < min (depth + 1) maxCount
    · rw [if_pos hdeep]
      exact .error (hspared _ _) _
    · have hshallow : ¬ looser.nestingDepth < min (depth + 1) maxCount :=
        fun h => hdeep (Nat.lt_of_le_of_lt hwithin.nestingDepth h)
      rw [if_neg hdeep, if_neg hshallow]
      exact .refl _

theorem budget_le (program : Program) (remaining : Nat) :
    program.budget limits remaining ≤ program.budget looser remaining := by
  rw [Program.budget, Program.budget]
  exact Nat.mul_le_mul_left _ (by have := hwithin.nestingDepth; omega)

/-! ## Reading -/

open Decoding

variable [Source σ] {ρ : Type} {planOf : ρ → Plan ρ}

theorem readVariable_keeps :
    Keeps CodecError.ExceedsLimit (readVariable limits : Decoding σ (List UInt8))
      (readVariable looser) := by
  apply (Keeps.refl _).bind
  intro announced
  by_cases hlong : limits.effectiveLength < announced.toNat
  · simp only [hlong, if_true]
    exact .throw_bind trivial _ _
  · simp only [hlong, hwithin.not_effectiveLength_lt hlong, if_false]
    exact .refl _

theorem decode_keeps (record field : String) (leaf : Leaf) :
    Keeps CodecError.ExceedsLimit (leaf.decode record field limits : Decoding σ Value)
      (leaf.decode record field looser) := by
  cases leaf with
  | text => exact hwithin.readVariable_keeps.bind fun _ => .refl _
  | bytes => exact hwithin.readVariable_keeps.map _
  | _ => exact .refl _

/-- A record that is read within the limits, with some budget, is read in the same way within looser
limits and with more budget. -/
theorem decodeRecord_keeps {budget budget' : Nat} (hle : budget ≤ budget') (record : ρ)
    (depth : Nat) :
    Keeps CodecError.ExceedsLimit
      (decodeRecord planOf limits budget record depth : Decoding σ (List Value))
      (decodeRecord planOf looser budget' record depth) := by
  -- Both runs are at the same depth: where they count it, they count the same, or the first fails.
  induction budget generalizing budget' record depth with
  | zero => exact .exhausted _
  | succ budget ih =>
    obtain ⟨larger, rfl⟩ : ∃ larger, budget' = larger + 1 := ⟨budget' - 1, by omega⟩
    apply Keeps.mapM
    intro step
    cases hwire : step.wire with
    | leaf kind =>
      rw [decodeStep_of_leaf hwire, decodeStep_of_leaf hwire]
      exact hwithin.decode_keeps _ _ kind
    | nested target =>
      rw [decodeStep_of_nested hwire, decodeStep_of_nested hwire]
      have henter : SameUnless CodecError.ExceedsLimit
          (limits.enter (planOf target).cyclic depth) (looser.enter (planOf target).cyclic depth) :=
        hwithin.enter_sameUnless (fun _ _ => trivial) _ depth
      exact (Keeps.ofExcept henter).bind fun inner =>
        (ih (Nat.le_of_succ_le_succ hle) target inner).map _

theorem decodeUnchecked_keeps (program : Program) :
    Keeps CodecError.ExceedsLimit (program.decodeUnchecked limits : Decoding σ (List Value))
      (program.decodeUnchecked looser) :=
  fun source => hwithin.decodeRecord_keeps (hwithin.budget_le program _) 0 0 source

/-- The fixed size, by which a short source is refused, does not depend on the limits. -/
theorem decodeChecked_keeps (program : Program) :
    Keeps CodecError.ExceedsLimit (program.decodeChecked limits : Decoding σ (List Value))
      (program.decodeChecked looser) := by
  intro source outcome after hrun hunspared
  have hunchecked := hwithin.decodeUnchecked_keeps program source outcome after
  cases hsize : program.root.fixedSize with
  | none =>
    rw [Program.run_decodeChecked_of_none hsize] at hrun ⊢
    exact hunchecked hrun hunspared
  | some size =>
    rw [Program.run_decodeChecked_of_some hsize] at hrun ⊢
    split at hrun
    case isTrue hshort => rwa [if_pos hshort]
    case isFalse hlong =>
      rw [if_neg hlong]
      exact hunchecked hrun hunspared

end

/-! ## Checking and writing -/

section Checking

theorem variableLength_sameUnless (hwithin : limits.Within looser) (record field : String)
    (length : Nat) :
    SameUnless CodecError.TooDeepOrLong (RecordCodec.variableLength record field limits length)
      (RecordCodec.variableLength record field looser length) := by
  rw [RecordCodec.variableLength, RecordCodec.variableLength]
  by_cases hlong : limits.effectiveLength < length
  · rw [if_pos hlong]
    exact .error trivial _
  · rw [if_neg hlong, if_neg (hwithin.not_effectiveLength_lt hlong)]
    exact .refl _

theorem encodedLength_sameUnless (hwithin : limits.Within looser) (record field : String)
    (leaf : Leaf) (value : Value) :
    SameUnless CodecError.TooDeepOrLong (leaf.encodedLength record field limits value)
      (leaf.encodedLength record field looser value) := by
  cases leaf <;> cases value
  case text.text => exact hwithin.variableLength_sameUnless record field _
  case bytes.bytes => exact hwithin.variableLength_sameUnless record field _
  all_goals exact .refl _

variable {ρ : Type} {planOf : ρ → Plan ρ}

mutual

theorem stepLength_sameUnless (hwithin : limits.Within looser) (record : String) (depth : Nat)
    (step : Step ρ) (value : Value) :
    SameUnless CodecError.TooDeepOrLong (stepLength planOf limits record depth step value)
      (stepLength planOf looser record depth step value) := by
  cases hwire : step.wire with
  | leaf kind =>
    rw [stepLength_of_leaf hwire, stepLength_of_leaf hwire]
    exact hwithin.encodedLength_sameUnless _ _ kind value
  | nested target =>
    cases value with
    | record fields =>
      rw [stepLength_of_nested hwire, stepLength_of_nested hwire]
      apply (hwithin.enter_sameUnless (fun _ _ => trivial) (planOf target).cyclic depth).bind
      intro inner
      apply (SameUnless.refl ((planOf target).checkCount fields)).bind
      intro _
      exact stepsLength_sameUnless hwithin _ inner (planOf target).steps fields
    | _ =>
      simp only [stepLength, hwire]
      exact .refl _

theorem stepsLength_sameUnless (hwithin : limits.Within looser) (record : String) (depth : Nat)
    (steps : List (Step ρ)) (values : List Value) :
    SameUnless CodecError.TooDeepOrLong (stepsLength planOf limits record depth steps values)
      (stepsLength planOf looser record depth steps values) := by
  cases steps with
  | nil =>
    simp only [stepsLength]
    exact .refl _
  | cons step steps =>
    cases values with
    | nil =>
      simp only [stepsLength]
      exact .refl _
    | cons value values =>
      rw [stepsLength, stepsLength]
      apply (stepLength_sameUnless hwithin record depth step value).bind
      intro first
      apply (stepsLength_sameUnless hwithin record depth steps values).bind
      intro rest
      exact .refl _

end

end Checking

end Limits.Within

/-! ## Programs -/

namespace Program

variable {limits looser : Limits}

/-- Where the check goes through, or fails for a reason other than the limits, it does so within
looser limits. -/
theorem encodedLength_sameUnless (program : Program) (hwithin : limits.Within looser)
    (values : List Value) :
    SameUnless CodecError.TooDeepOrLong (program.encodedLength limits values)
      (program.encodedLength looser values) :=
  (SameUnless.refl _).bind fun _ => hwithin.stepsLength_sameUnless _ 0 _ values

/-- Writing itself knows no limits; they decide only whether it starts. -/
theorem run_encode_of_unspared (program : Program) (hwithin : limits.Within looser)
    {values : List Value} {κ : Type} [Sink κ] {sink : κ}
    (h : Unspared CodecError.TooDeepOrLong ((program.encode limits values).run sink).1) :
    (program.encode looser values).run sink = (program.encode limits values).run sink := by
  have hlength : Unspared CodecError.TooDeepOrLong (program.encodedLength limits values) := by
    intro error herror
    rw [run_encode_of_error herror] at h
    exact h error rfl
  rw [encode, encode, program.encodedLength_sameUnless hwithin values hlength]

/-- Limits only ever restrict.  Whatever the program and the limits, within looser ones the same is
read from any source and the same is left behind, unless reading fails because a limit is exceeded;
with each budget, the same holds of reading the root record.  The check of any values has the same
outcome, and writing them to any sink as well, which then holds the same bytes, unless the values
are refused because they are nested too deep or too long. -/
theorem limits_only_restrict (program : Program) (hwithin : limits.Within looser) :
    (∀ {σ : Type} [Source σ] (source : σ) (outcome : Except CodecError (List Value)) (after : σ),
      Unspared CodecError.ExceedsLimit outcome →
        ((program.decodeUnchecked limits).run source = some (outcome, after) →
          (program.decodeUnchecked looser).run source = some (outcome, after)) ∧
        ((program.decodeChecked limits).run source = some (outcome, after) →
          (program.decodeChecked looser).run source = some (outcome, after)) ∧
        ∀ budget,
          (decodeRecord program.plan limits budget 0 0).run source = some (outcome, after) →
            (decodeRecord program.plan looser budget 0 0).run source = some (outcome, after)) ∧
    ∀ values,
      (Unspared CodecError.TooDeepOrLong (program.encodedLength limits values) →
        program.encodedLength looser values = program.encodedLength limits values) ∧
      ∀ {κ : Type} [Sink κ] (sink : κ),
        Unspared CodecError.TooDeepOrLong ((program.encode limits values).run sink).1 →
          (program.encode looser values).run sink = (program.encode limits values).run sink := by
  constructor
  · intro σ _ source outcome after hunspared
    refine ⟨fun hrun => ?_, fun hrun => ?_, fun budget hrun => ?_⟩
    · exact hwithin.decodeUnchecked_keeps program source outcome after hrun hunspared
    · exact hwithin.decodeChecked_keeps program source outcome after hrun hunspared
    · exact hwithin.decodeRecord_keeps (Nat.le_refl budget) 0 0 source outcome after hrun hunspared
  · intro values
    exact ⟨program.encodedLength_sameUnless hwithin values,
      fun sink hunspared => program.run_encode_of_unspared hwithin hunspared⟩

end Program

namespace Sample

/-- Two bytes of text are the most that the tighter limits let through.  An envelope comes to the
end of its source before it comes to the limit of three records inside each other. -/
theorem label_within_looser :
    Limits.Within ⟨3, 2⟩ .standard ∧
      (∃ after, (labelCore.program.decodeUnchecked ⟨3, 2⟩).run
          (Reader.ofList [0, 1, 7, 0, 2, 97, 98]) = some (.ok labelValues, after) ∧
        (labelCore.program.decodeUnchecked .standard).run
          (Reader.ofList [0, 1, 7, 0, 2, 97, 98]) = some (.ok labelValues, after)) ∧
      (∃ error after, (envelopeCore.program.decodeUnchecked ⟨3, 2⟩).run
          (Reader.ofList [1, 2, 3]) = some (.error (.stream error), after) ∧
        (envelopeCore.program.decodeUnchecked .standard).run
          (Reader.ofList [1, 2, 3]) = some (.error (.stream error), after)) ∧
      labelCore.program.encodedLength .standard labelValues = .ok 7 ∧
      ((labelCore.program.encode .standard labelValues).run Growing.empty).2.written =
        [0, 1, 7, 0, 2, 97, 98] := by
  have hwithin : Limits.Within ⟨3, 2⟩ .standard := ⟨by decide, by decide⟩
  obtain ⟨hread, hwrite⟩ := labelCore.program.limits_only_restrict hwithin
  obtain ⟨hlength, hencode⟩ := hwrite labelValues
  obtain ⟨hbroken, -⟩ := envelopeCore.program.limits_only_restrict hwithin
  have hlabel : (labelCore.program.decodeUnchecked ⟨3, 2⟩).run
      (Reader.ofList [0, 1, 7, 0, 2, 97, 98]) = some (.ok labelValues, _) := rfl
  have henvelope : (envelopeCore.program.decodeUnchecked ⟨3, 2⟩).run
      (Reader.ofList [1, 2, 3]) = some (.error (.stream _), _) := rfl
  refine ⟨hwithin, ⟨_, hlabel, (hread _ _ _ (unspared_ok _)).1 hlabel⟩,
    ⟨_, _, henvelope, (hbroken _ _ _ (unspared_error_iff.2 id)).1 henvelope⟩, ?_, ?_⟩
  · rw [hlength (unspared_ok 7)]
    rfl
  · rw [hencode Growing.empty (unspared_ok 7)]
    rfl

end Sample

end RecordCodec
