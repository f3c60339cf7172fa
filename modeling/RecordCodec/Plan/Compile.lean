import RecordCodec.Plan.Basic
import RecordCodec.Layout.Registry

/-!
# Compiling a schema

A schema compiles into the program of all records reachable from it.  The records found so far wait
in a queue; the place of a record in the queue is the place of its plan in the program, so a record
nested several times, or in itself, is planned once.
-/

namespace RecordCodec

/-- A computation on a registry that may fail, keeping what the registry learned. -/
abbrev Generation (n : Nat) := ExceptT CodecError (StateM (Registry n))

/-- The schemas found so far, and the plans of the first of them. -/
structure PlanQueue (n : Nat) where
  found : Array (Schema n)
  plans : Array (Plan Nat)

namespace PlanQueue

variable {n : Nat}

def start (root : Schema n) : PlanQueue n where
  found := #[root]
  plans := #[]

/-- The place of `target`, which is found now if it was not before. -/
def place (catalog : Catalog n) (queue : PlanQueue n) (target : RecordId n) :
    Generation n (Nat × PlanQueue n) := do
  match queue.found.findIdx? (·.record == target) with
  | some place => return (place, queue)
  | none =>
    let schema ← ExceptT.mk (do
      return (← Registry.schema catalog target).mapError CodecError.schema)
    return (queue.found.size, { queue with found := queue.found.push schema })

def planFields (catalog : Catalog n) : PlanQueue n → List (FieldLayout n) →
    Generation n (List (Step Nat) × PlanQueue n)
  | queue, [] => return ([], queue)
  | queue, field :: fields => do
    let (wire, queue) ←
      match field.wire with
      | .leaf kind => pure (Wire.leaf kind, queue)
      | .nested target =>
        let (place, queue) ← queue.place catalog target
        pure (Wire.nested place, queue)
    let (steps, queue) ← planFields catalog queue fields
    return ({ field := field.name, wire } :: steps, queue)

/-- Plans the schemas of the queue one after the other, with those found on the way, up to `rounds`
of them. -/
def drain (catalog : Catalog n) : (rounds : Nat) → PlanQueue n → Generation n (PlanQueue n)
  | 0, queue => return queue
  | rounds + 1, queue =>
    match queue.found[queue.plans.size]? with
    | none => return queue
    | some schema => do
      let (steps, queue) ← planFields catalog queue schema.fields
      let plan :=
        { name := schema.name
          fixedSize := schema.fixedSize
          cyclic := schema.cyclic
          steps }
      drain catalog rounds { queue with plans := queue.plans.push plan }

end PlanQueue

/-- The program of `root` and every record reachable from it.  No record is queued twice, so `n`
rounds plan them all. -/
def Program.compile {n : Nat} (catalog : Catalog n) (root : Schema n) : Generation n Program := do
  let queue ← PlanQueue.drain catalog n (PlanQueue.start root)
  let program : Program := { plans := queue.plans }
  ExceptT.mk (pure program.verify)
  return program

end RecordCodec
