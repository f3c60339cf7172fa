import RecordCodec.Value.Error

/-!
# Plans

A plan is the list of steps by which the fields of one record are read and written.  A step that
nests a record names its plan by a `ρ`: a record type, or in a program, which holds the plans of
all records reachable from its root, a place in the program.
-/

namespace RecordCodec

/-- How one field is read and written. -/
structure Step (ρ : Type) where
  field : String
  wire : Wire ρ
  deriving DecidableEq

/-- How one record is read and written. -/
structure Plan (ρ : Type) where
  /-- The name of the record. -/
  name : String
  /-- The bytes that every value of the record takes. -/
  fixedSize : Option Nat
  /-- Whether a cycle of nested fields can be reached from the record. -/
  cyclic : Bool
  steps : List (Step ρ)
  deriving DecidableEq

def Plan.empty {ρ : Type} : Plan ρ where
  name := ""
  fixedSize := none
  cyclic := false
  steps := []

/-- The plans of a root record, which comes first, and of every record that it nests. -/
structure Program where
  plans : Array (Plan Nat)

namespace Program

def plan (program : Program) (place : Nat) : Plan Nat :=
  program.plans.getD place Plan.empty

def root (program : Program) : Plan Nat :=
  program.plan 0

def stepWidth (program : Program) (step : Step Nat) : Option Nat :=
  match step.wire with
  | .leaf kind => kind.width?
  | .nested place => (program.plan place).fixedSize

/-- The bytes that the steps take whatever their values, added up as they were in the schemas. -/
def stepsWidth (program : Program) (steps : List (Step Nat)) : Option Nat :=
  steps.foldlM (fun total step => (program.stepWidth step).map (wrapCount <| total + ·)) 0

/-- Refuses a plan whose steps do not add up to its fixed size. -/
def verifyPlan (program : Program) (plan : Plan Nat) : Except CodecError Unit :=
  match plan.fixedSize with
  | none => .ok ()
  | some expected =>
    match program.stepsWidth plan.steps with
    | none =>
      .error (.generationFailure plan.name
        s!"plan has no static width but fixed size is {expected}")
    | some actual =>
      if actual = expected then
        .ok ()
      else
        .error (.generationFailure plan.name
          s!"plan width {actual} differs from fixed size {expected}")

/-- Refuses a program at the first plan whose steps do not add up to its fixed size. -/
def verify (program : Program) : Except CodecError Unit :=
  program.plans.toList.forM program.verifyPlan

end Program

end RecordCodec
