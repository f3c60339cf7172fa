import RecordCodec.Proofs.Plan.WellFormed
import RecordCodec.Proofs.Wire.Reading
import Mathlib.Data.List.Perm.Subperm
import Mathlib.Data.List.ProdSigma

/-!
# The budget of a program

If reading the root record ends at all, it ends within the program's budget.  A call that needs a
budget of so many open records opens a record that needs one less; followed inwards, these calls
differ from each other, since each needs another budget.  Depth and consumed bytes only grow on the
way, so they differ already in place and in the sum of depth and consumed bytes, and of such pairs
there are no more than the budget.
-/

namespace RecordCodec

open LawfulSource

/-! ## Calls that need all of their budget -/

section Spending

variable {σ ρ : Type} {planOf : ρ → Plan ρ} {limits : Limits} {record : ρ} {depth budget : Nat}

/-- Reading `record` ends with one more open record than `budget`, and not with `budget`. -/
structure Spends [Source σ] (planOf : ρ → Plan ρ) (limits : Limits) (record : ρ) (depth : Nat)
    (source : σ) (budget : Nat) : Prop where
  starved : (decodeRecord planOf limits budget record depth).run source = none
  ended : (decodeRecord planOf limits (budget + 1) record depth).run source ≠ none

theorem decodeRecord_ne_none_of_le [Source σ] {budget' : Nat} {source : σ} (hle : budget ≤ budget')
    (h : (decodeRecord planOf limits budget record depth).run source ≠ none) :
    (decodeRecord planOf limits budget' record depth).run source ≠ none := by
  obtain ⟨result, hrun⟩ := Option.ne_none_iff_exists'.1 h
  rw [decodeRecord_mono hle hrun]
  exact Option.some_ne_none result

theorem Spends.unique [Source σ] {budget' : Nat} {source : σ}
    (h : Spends planOf limits record depth source budget)
    (h' : Spends planOf limits record depth source budget') : budget = budget' := by
  rcases Nat.lt_trichotomy budget budget' with hlt | heq | hgt
  · exact absurd h'.starved (decodeRecord_ne_none_of_le hlt h.ended)
  · exact heq
  · exact absurd h.starved (decodeRecord_ne_none_of_le hgt h'.ended)

/-- A run that ends has a least budget with which it ends. -/
theorem exists_spends [Source σ] {source : σ}
    (h : (decodeRecord planOf limits budget record depth).run source ≠ none) :
    ∃ least, Spends planOf limits record depth source least := by
  induction budget with
  | zero => exact absurd rfl h
  | succ budget ih =>
    by_cases hstarved : (decodeRecord planOf limits budget record depth).run source = none
    · exact ⟨budget, hstarved, h⟩
    · exact ih hstarved

variable [LawfulSource σ] {source : σ}

/-- A field that is read moves the source forward, and not past its end. -/
theorem eq_skip_of_decodeStep {name : String} {step : Step ρ} {value : Value} {after : σ}
    (h : (decodeStep planOf limits (decodeRecord planOf limits budget) name depth step).run source =
      some (.ok value, after)) :
    ∃ count ≤ (rest source).length, after = skip count source := by
  have hsteps : ([step].mapM (decodeStep planOf limits (decodeRecord planOf limits budget) name
      depth)).run source = some (.ok [value], after) :=
    Decoding.mapM_cons_eq_ok_iff.2 ⟨value, [], after, rfl, h, rfl⟩
  obtain ⟨bytes, -, hreads⟩ := wireForm_of_mapM wireForm_of_decodeRecord hsteps
  obtain ⟨hafter, hrest⟩ := eq_skip_of_reads hreads
  refine ⟨bytes.length, ?_, hafter⟩
  rw [hrest, List.length_append]
  exact Nat.le_add_right _ _

/-- If a list of fields cannot be read with some budget, but with one more, then a nested record
among them needs all of that budget. -/
theorem exists_nested_of_steps {name : String} {steps : List (Step ρ)}
    (hstarved : (steps.mapM (decodeStep planOf limits (decodeRecord planOf limits budget) name
      depth)).run source = none)
    (hended : (steps.mapM (decodeStep planOf limits (decodeRecord planOf limits (budget + 1)) name
      depth)).run source ≠ none) :
    ∃ step ∈ steps, ∃ target inner count, step.wire = .nested target ∧
      limits.enter (planOf target).cyclic depth = .ok inner ∧ count ≤ (rest source).length ∧
      Spends planOf limits target inner (skip count source) budget := by
  induction steps generalizing source with
  | nil => cases hstarved
  | cons step steps ih =>
    obtain ⟨hfirst', hlater⟩ := not_or.1 (mt Decoding.mapM_cons_eq_none_iff.2 hended)
    rcases Decoding.mapM_cons_eq_none_iff.1 hstarved with hfirst | ⟨value, reached, hfirst, hrest⟩
    · cases hwire : step.wire with
      | leaf kind =>
        rw [decodeStep_of_leaf hwire] at hfirst hfirst'
        exact absurd hfirst hfirst'
      | nested target =>
        obtain ⟨inner, henter, hnested⟩ := (decodeStep_nested_eq_none_iff hwire).1 hfirst
        refine ⟨step, List.mem_cons_self, target, inner, 0, hwire, henter, Nat.zero_le _, ?_⟩
        rw [skip_zero]
        exact ⟨hnested, fun hnone =>
          hfirst' ((decodeStep_nested_eq_none_iff hwire).2 ⟨inner, henter, hnone⟩)⟩
    · obtain ⟨count, hcount, rfl⟩ := eq_skip_of_decodeStep hfirst
      obtain ⟨_, hsame, rfl⟩ := decodeStep_follows Source.simulates_eq
        (decodeRecord_follows Source.simulates_eq (Nat.le_succ budget)) name depth step
        source source rfl _ _ hfirst
      have hrest' : (steps.mapM (decodeStep planOf limits (decodeRecord planOf limits (budget + 1))
          name depth)).run (skip count source) ≠ none :=
        fun hnone => hlater ⟨value, _, hsame, hnone⟩
      obtain ⟨other, hmem, target, inner, further, hwire, henter, hfurther, hspends⟩ :=
        ih hrest hrest'
      rw [skip_skip] at hspends
      rw [rest_skip, List.length_drop] at hfurther
      exact ⟨other, List.mem_cons_of_mem _ hmem, target, inner, count + further, hwire, henter,
        by omega, hspends⟩

theorem Spends.exists_nested (h : Spends planOf limits record depth source (budget + 1)) :
    ∃ step ∈ (planOf record).steps, ∃ target inner count, step.wire = .nested target ∧
      limits.enter (planOf target).cyclic depth = .ok inner ∧ count ≤ (rest source).length ∧
      Spends planOf limits target inner (skip count source) budget :=
  exists_nested_of_steps h.starved h.ended

end Spending

/-! ## Chains of calls -/

theorem Limits.enter_eq_ok {limits : Limits} {cyclic : Bool} {depth inner : Nat}
    (h : limits.enter cyclic depth = .ok inner)
    (hdepth : depth ≤ min limits.nestingDepth maxCount) :
    depth ≤ inner ∧ inner ≤ min limits.nestingDepth maxCount := by
  rw [enter] at h
  cases cyclic with
  | false =>
    cases h
    exact ⟨Nat.le_refl _, hdepth⟩
  | true =>
    by_cases hlimit : limits.nestingDepth < min (depth + 1) maxCount
    · simp [hlimit] at h
    · simp only [hlimit, if_true, if_false] at h
      cases h
      omega

/-- The reading of one record: its place, its depth, and the bytes that were read before it. -/
structure Call where
  place : Nat
  depth : Nat
  consumed : Nat

namespace Call

def key (call : Call) : Nat × Nat :=
  (call.place, call.depth + call.consumed)

/-- The call is no further out than `first`, at no smaller depth and after no fewer bytes. -/
def Inside (call first : Call) : Prop :=
  first.depth ≤ call.depth ∧ first.consumed ≤ call.consumed

theorem Inside.refl (call : Call) : call.Inside call :=
  ⟨Nat.le_refl _, Nat.le_refl _⟩

theorem Inside.trans {call middle first : Call} (h : call.Inside middle)
    (h' : middle.Inside first) : call.Inside first :=
  ⟨Nat.le_trans h'.1 h.1, Nat.le_trans h'.2 h.2⟩

theorem eq_of_inside {call first : Call} (hinside : call.Inside first)
    (hkey : call.key = first.key) : call = first := by
  obtain ⟨hdepth, hconsumed⟩ := hinside
  obtain ⟨hplace, hsum⟩ := Prod.mk.inj hkey
  obtain ⟨place, depth, consumed⟩ := call
  obtain ⟨place', depth', consumed'⟩ := first
  simp only [mk.injEq] at hplace hsum hdepth hconsumed ⊢
  omega

variable {σ : Type} [LawfulSource σ] (program : Program) (limits : Limits) (start : σ)

/-- The call is of a plan of the program, at a depth that the limits allow, and before the end of
the source. -/
structure Possible (call : Call) : Prop where
  place_lt : call.place < program.plans.size
  depth_le : call.depth ≤ min limits.nestingDepth maxCount
  consumed_le : call.consumed ≤ (rest start).length

/-- The call ends with one more open record than `budget`, and not with `budget`. -/
def Spends (call : Call) (budget : Nat) : Prop :=
  RecordCodec.Spends program.plan limits call.place call.depth (skip call.consumed start) budget

variable {program limits start}

/-- A possible call that needs some budget opens a possible call further in that needs one less. -/
theorem exists_next (hrange : program.InRange) {call : Call} {budget : Nat}
    (hcall : call.Possible program limits start)
    (hspends : call.Spends program limits start (budget + 1)) :
    ∃ next : Call, next.Inside call ∧ next.Possible program limits start ∧
      next.Spends program limits start budget := by
  obtain ⟨step, hstep, target, inner, count, hwire, henter, hcount, hnext⟩ := hspends.exists_nested
  obtain ⟨hdepth, hinner⟩ := Limits.enter_eq_ok henter hcall.depth_le
  rw [skip_skip] at hnext
  rw [rest_skip, List.length_drop] at hcount
  have hconsumed : call.consumed + count ≤ (rest start).length := by
    have hbefore := hcall.consumed_le
    omega
  exact ⟨⟨target, inner, call.consumed + count⟩, ⟨hdepth, Nat.le_add_right _ _⟩,
    ⟨hrange.target_lt hstep hwire, hinner, hconsumed⟩, hnext⟩

/-- A possible call that needs a budget starts a chain of as many calls that differ in their
keys. -/
theorem exists_chain (hrange : program.InRange) {budget : Nat} {call : Call}
    (hcall : call.Possible program limits start)
    (hspends : call.Spends program limits start budget) :
    ∃ calls : List Call, calls.length = budget + 1 ∧ (calls.map key).Nodup ∧
      ∀ other ∈ calls, other.Inside call ∧ other.Possible program limits start ∧
        ∃ smaller ≤ budget, other.Spends program limits start smaller := by
  induction budget generalizing call with
  | zero =>
    refine ⟨[call], rfl, by simp, fun other hmem => ?_⟩
    obtain rfl := List.mem_singleton.1 hmem
    exact ⟨.refl other, hcall, 0, Nat.le_refl 0, hspends⟩
  | succ budget ih =>
    obtain ⟨next, hnext, hpossible, hless⟩ := exists_next hrange hcall hspends
    obtain ⟨calls, hlength, hnodup, hcalls⟩ := ih hpossible hless
    have hinside : ∀ other ∈ calls, other.Inside call := by
      intro other hmem
      exact (hcalls other hmem).1.trans hnext
    have hfresh : call.key ∉ calls.map key := by
      intro hmem
      obtain ⟨other, hother, hkey⟩ := List.mem_map.1 hmem
      obtain rfl := eq_of_inside (hinside other hother) hkey
      obtain ⟨-, -, smaller, hsmaller, hspends'⟩ := hcalls other hother
      have heq := hspends.unique hspends'
      omega
    refine ⟨call :: calls, by rw [List.length_cons, hlength],
      List.nodup_cons.2 ⟨hfresh, hnodup⟩, fun other hmem => ?_⟩
    rcases List.mem_cons.1 hmem with rfl | hother
    · exact ⟨.refl other, hcall, budget + 1, Nat.le_refl _, hspends⟩
    · obtain ⟨-, hpossible', smaller, hsmaller, hspends'⟩ := hcalls other hother
      exact ⟨hinside other hother, hpossible', smaller, Nat.le_succ_of_le hsmaller, hspends'⟩

/-- No possible call needs more than the program's budget. -/
theorem Spends.lt_budget (hrange : program.InRange) {budget : Nat} {call : Call}
    (hcall : call.Possible program limits start)
    (hspends : call.Spends program limits start budget) :
    budget < program.budget limits (rest start).length := by
  obtain ⟨calls, hlength, hnodup, hcalls⟩ := exists_chain hrange hcall hspends
  have hsubset : calls.map key ⊆ List.range program.plans.size ×ˢ
      List.range (limits.nestingDepth + (rest start).length + 1) := by
    intro pair hpair
    obtain ⟨other, hother, rfl⟩ := List.mem_map.1 hpair
    obtain ⟨hplace, hdepth, hconsumed⟩ := (hcalls other hother).2.1
    have hkey : other.depth + other.consumed < limits.nestingDepth + (rest start).length + 1 := by
      omega
    exact List.mem_product.2 ⟨List.mem_range.2 hplace, List.mem_range.2 hkey⟩
  calc
    budget < (calls.map key).length := by
      rw [List.length_map, hlength]
      exact Nat.lt_succ_self budget
    _ ≤ (List.range program.plans.size ×ˢ
        List.range (limits.nestingDepth + (rest start).length + 1)).length :=
      (hnodup.subperm hsubset).length_le
    _ = program.budget limits (rest start).length := by
      rw [List.length_product, List.length_range, List.length_range]
      rfl

end Call

/-! ## The root record -/

namespace Program

variable {σ : Type} [LawfulSource σ] {source : σ} {program : Program} {limits : Limits}
variable {result : Except CodecError (List Value) × σ}

/-- If some budget is enough to read the root record, then the program's budget is. -/
theorem run_decodeUnchecked_of_decodeRecord (hroot : 0 < program.plans.size)
    (hrange : program.InRange) {budget : Nat}
    (hrun : (decodeRecord program.plan limits budget 0 0).run source = some result) :
    (program.decodeUnchecked limits).run source = some result := by
  have hended : (decodeRecord program.plan limits budget 0 0).run source ≠ none := by
    rw [hrun]
    exact Option.some_ne_none result
  obtain ⟨least, hleast⟩ := exists_spends hended
  have hpossible : Call.Possible program limits source ⟨0, 0, 0⟩ :=
    ⟨hroot, Nat.zero_le _, Nat.zero_le _⟩
  have hspends : Call.Spends program limits source ⟨0, 0, 0⟩ least := by
    rw [Call.Spends, skip_zero]
    exact hleast
  have hlt := hspends.lt_budget hrange hpossible
  obtain ⟨result', hleastRun⟩ := Option.ne_none_iff_exists'.1 hleast.ended
  have hsame : some result' = some result := by
    calc
      some result' =
          (decodeRecord program.plan limits (max (least + 1) budget) 0 0).run source :=
        (decodeRecord_mono (Nat.le_max_left (least + 1) budget) hleastRun).symm
      _ = some result := decodeRecord_mono (Nat.le_max_right (least + 1) budget) hrun
  rw [run_decodeUnchecked, LawfulSource.remaining_eq, ← hsame]
  exact decodeRecord_mono hlt hleastRun

end Program

end RecordCodec
