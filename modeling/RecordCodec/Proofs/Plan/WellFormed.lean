import RecordCodec.Plan.Basic
import RecordCodec.Proofs.Outcome

/-!
# Well-formed programs

A program is well-formed if it has a root, nests no record without a plan, has no enum with more
variants than one byte tells apart and no 32-bit field that travels unsigned in full width, and the
steps of every plan of a fixed size add up to that size.
-/

namespace RecordCodec

/-! ## Sums -/

def totalWidth : List (Option Nat) → Option Nat
  | [] => some 0
  | width? :: widths => do
    let first ← width?
    let others ← totalWidth widths
    return first + others

theorem totalWidth_cons_eq_some_iff {width? : Option Nat} {widths : List (Option Nat)}
    {total : Nat} :
    totalWidth (width? :: widths) = some total ↔
      ∃ first others, width? = some first ∧ totalWidth widths = some others ∧
        first + others = total := by
  rw [totalWidth]
  cases width? with
  | none => simp
  | some first => simp [Option.bind_eq_some_iff]

/-- Cutting the sum off after each width is as good as doing it once in the end. -/
theorem foldlM_wrapCount_add (widths : List (Option Nat)) {before : Nat}
    (hbefore : before ≤ maxCount) :
    widths.foldlM (fun total width? => width?.map (wrapCount <| total + ·)) before =
      (totalWidth widths).map (wrapCount <| before + ·) := by
  induction widths generalizing before with
  | nil => exact congrArg some (wrapCount_of_le hbefore).symm
  | cons width? widths ih =>
    rw [List.foldlM_cons, totalWidth]
    cases width? with
    | none => rfl
    | some width =>
      refine (ih (wrapCount_le_maxCount _)).trans ?_
      cases totalWidth widths with
      | none => rfl
      | some others =>
        simp only [Option.map_some, Option.bind_eq_bind, Option.bind_some, Option.pure_def]
        rw [wrapCount_wrapCount_add, Nat.add_assoc]

theorem totalWidth_map_wrapCount (widths : List (Option Nat)) :
    (totalWidth (widths.map (Option.map wrapCount))).map wrapCount =
      (totalWidth widths).map wrapCount := by
  induction widths with
  | nil => rfl
  | cons width? widths ih =>
    rw [List.map_cons, totalWidth, totalWidth]
    cases width? with
    | none => rfl
    | some width =>
      cases hothers : totalWidth widths with
      | none =>
        rw [hothers, Option.map_none, Option.map_eq_none_iff] at ih
        rw [ih]
        rfl
      | some others =>
        rw [hothers, Option.map_some, Option.map_eq_some_iff] at ih
        obtain ⟨cut, hcut, hwrap⟩ := ih
        rw [hcut]
        refine congrArg some ?_
        rw [wrapCount_wrapCount_add, ← wrapCount_add_wrapCount, hwrap, wrapCount_add_wrapCount]

theorem map_wrapCount_of_le {width? : Option Nat}
    (h : ∀ width, width? = some width → width ≤ maxCount) : width?.map wrapCount = width? := by
  cases width? with
  | none => rfl
  | some width => exact congrArg some (wrapCount_of_le (h width rfl))

/-! ## Leaves -/

/-- Whether one byte tells all values of a leaf apart, if its values travel as ordinals, and a
32-bit field holds all numbers that are read for it, if they travel unsigned. -/
def Leaf.Admissible : Leaf → Prop
  | enum variants => variants ≤ maxVariants
  | unsigned32 width => width ≠ .u32
  | _ => True

theorem Leaf.width_le_maxCount (leaf : Leaf) {width : Nat} (hwidth : leaf.width? = some width) :
    width ≤ maxCount := by
  cases leaf with
  | unsigned32 unsigned | unsigned64 unsigned => cases unsigned <;> cases hwidth <;> decide
  | _ => cases hwidth <;> decide

def AdmissiblePlans {ρ : Type} (planOf : ρ → Plan ρ) : Prop :=
  ∀ record, ∀ step ∈ (planOf record).steps, ∀ kind, step.wire = .leaf kind → kind.Admissible

namespace Program

variable {program : Program}

/-! ## Places -/

def InRange (program : Program) : Prop :=
  ∀ plan ∈ program.plans, ∀ step ∈ plan.steps, ∀ target,
    step.wire = .nested target → target < program.plans.size

theorem plan_of_lt {place : Nat} (h : place < program.plans.size) :
    program.plan place = program.plans[place] := by
  rw [plan, Array.getD_eq_getD_getElem?, Array.getElem?_eq_getElem h, Option.getD_some]

theorem plan_of_le {place : Nat} (h : program.plans.size ≤ place) :
    program.plan place = Plan.empty := by
  rw [plan, Array.getD_eq_getD_getElem?, Array.getElem?_eq_none h, Option.getD_none]

/-- Whatever tells a plan apart from the one past the last shows that it is in the program. -/
theorem plan_mem_of_ne_empty {place : Nat} (h : program.plan place ≠ Plan.empty) :
    program.plan place ∈ program.plans := by
  rcases Nat.lt_or_ge place program.plans.size with hlt | hle
  · rw [plan_of_lt hlt]
    exact Array.getElem_mem hlt
  · exact absurd (plan_of_le hle) h

theorem plan_mem_of_mem_steps {place : Nat} {step : Step Nat}
    (h : step ∈ (program.plan place).steps) : program.plan place ∈ program.plans := by
  apply plan_mem_of_ne_empty
  intro hempty
  rw [hempty] at h
  cases h

theorem plan_mem_of_fixedSize {place size : Nat}
    (h : (program.plan place).fixedSize = some size) : program.plan place ∈ program.plans := by
  apply plan_mem_of_ne_empty
  intro hempty
  rw [hempty] at h
  cases h

theorem InRange.target_lt (h : program.InRange) {place target : Nat} {step : Step Nat}
    (hstep : step ∈ (program.plan place).steps) (hwire : step.wire = .nested target) :
    target < program.plans.size :=
  h _ (plan_mem_of_mem_steps hstep) step hstep target hwire

/-! ## Widths -/

/-- The steps add up to what is left of their sum as a count. -/
theorem stepsWidth_eq (steps : List (Step Nat)) :
    program.stepsWidth steps = (totalWidth (steps.map program.stepWidth)).map wrapCount := by
  calc
    program.stepsWidth steps =
        (steps.map program.stepWidth).foldlM
          (fun total width? => width?.map (wrapCount <| total + ·)) 0 := by
      rw [stepsWidth, List.foldlM_map]
    _ = (totalWidth (steps.map program.stepWidth)).map (wrapCount <| 0 + ·) :=
      foldlM_wrapCount_add _ (Nat.zero_le maxCount)
    _ = (totalWidth (steps.map program.stepWidth)).map wrapCount := by
      simp only [Nat.zero_add]

theorem stepsWidth_eq_some_iff {steps : List (Step Nat)} {size : Nat} :
    program.stepsWidth steps = some size ↔
      ∃ total, totalWidth (steps.map program.stepWidth) = some total ∧ wrapCount total = size := by
  rw [stepsWidth_eq, Option.map_eq_some_iff]

/-- The steps of every plan of a fixed size add up to that size, as counts do. -/
def Sums (program : Program) : Prop :=
  ∀ place size, (program.plan place).fixedSize = some size →
    program.stepsWidth (program.plan place).steps = some size

/-- Verification accepts a plan of a fixed size if its steps add up to it, and any other plan. -/
theorem verifyPlan_eq_ok_iff {plan : Plan Nat} :
    program.verifyPlan plan = .ok () ↔
      ∀ size, plan.fixedSize = some size → program.stepsWidth plan.steps = some size := by
  rw [verifyPlan]
  cases hsize : plan.fixedSize with
  | none => simp
  | some size =>
    cases hwidth : program.stepsWidth plan.steps with
    | none => simp
    | some actual =>
      by_cases hactual : actual = size
      · simp [hactual]
      · simp [hactual]

/-- A program that verification accepts adds up. -/
theorem sums_of_verify (h : program.verify = .ok ()) : program.Sums := by
  intro place size hsize
  refine verifyPlan_eq_ok_iff.1 (Outcome.forM_eq_ok_iff.1 h _ ?_) size hsize
  exact Array.mem_toList_iff.2 (plan_mem_of_fixedSize hsize)

/-- A program as compiling a schema gives it. -/
structure WellFormed (program : Program) : Prop where
  inhabited : 0 < program.plans.size
  inRange : program.InRange
  admissible : AdmissiblePlans program.plan
  sums : program.Sums

end Program

end RecordCodec
