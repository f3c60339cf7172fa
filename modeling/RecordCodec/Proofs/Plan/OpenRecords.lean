import RecordCodec.Proofs.Plan.Decoding
import RecordCodec.Proofs.Plan.WellFormed
import Mathlib.Data.Finset.Card

/-!
# Open records

A record that reaches a cycle spends the depth limit whenever it is opened inside another one; a
record that reaches none spends nothing.  If the latter are ranked, and each nests only records of a
lower rank, then at each depth no plan is open twice.  So the limit bounds how many records are open
at once, whatever is read, even if no record on the way takes a byte.
-/

namespace RecordCodec

/-! ## Computations that end -/

namespace Decoding

variable {σ α β γ : Type}

/-- The computation ends, within its budget, whatever it reads from. -/
def Ends (decoding : Decoding σ α) : Prop :=
  ∀ source, decoding.run source ≠ none

namespace Ends

theorem ofExcept (outcome : Except CodecError α) : Ends (ofExcept outcome : Decoding σ α) := by
  intro source
  simp

theorem pure (value : α) : Ends (Pure.pure value : Decoding σ α) :=
  ofExcept (.ok value)

theorem ofReading (reading : Reading σ α) : Ends (ofReading reading) := by
  intro source
  simp [run_ofReading]

theorem bind {first : Decoding σ α} {next : α → Decoding σ β} (hfirst : Ends first)
    (hnext : ∀ value, Ends (next value)) : Ends (first >>= next) := by
  intro source hnone
  rcases bind_eq_none_iff.1 hnone with hstart | ⟨value, reached, -, hrest⟩
  · exact hfirst source hstart
  · exact hnext value reached hrest

/-- What follows an outcome may rely on its value. -/
theorem ofExcept_bind {outcome : Except CodecError α} {next : α → Decoding σ β}
    (hnext : ∀ value, outcome = .ok value → Ends (next value)) :
    Ends (Decoding.ofExcept outcome >>= next) := by
  cases outcome with
  | error error => exact ofExcept (.error error)
  | ok value => exact hnext value rfl

theorem map {first : Decoding σ α} (f : α → β) (hfirst : Ends first) : Ends (f <$> first) := by
  intro source hnone
  exact hfirst source (map_eq_none_iff.1 hnone)

theorem mapM {f : γ → Decoding σ α} {items : List γ} (h : ∀ item ∈ items, Ends (f item)) :
    Ends (items.mapM f) := by
  induction items with
  | nil => exact pure []
  | cons item items ih =>
    rw [List.mapM_cons]
    apply (h item List.mem_cons_self).bind
    intro first
    apply (ih fun other hmem => h other (List.mem_cons_of_mem _ hmem)).bind
    intro rest
    exact pure (first :: rest)

end Ends

end Decoding

section Leaves

open Decoding

variable {σ : Type} [Source σ] {limits : Limits}

theorem readVariable_ends : Ends (readVariable limits : Decoding σ (List UInt8)) := by
  apply (Ends.ofReading Source.readUInt16).bind
  intro announced
  by_cases hlimit : limits.effectiveLength < announced.toNat
  · simp only [hlimit, if_true]
    exact (Ends.ofExcept (.error _)).bind fun _ => .ofReading _
  · simp only [hlimit, if_false]
    exact .ofReading _

/-- A leaf nests nothing, so reading it spends no budget. -/
theorem Leaf.decode_ends (record field : String) (leaf : Leaf) :
    Ends (leaf.decode record field limits : Decoding σ Value) := by
  cases leaf with
  | int8 | int16 | int32 | int64 | float32 | float64 | char16 | unsigned64 =>
    exact (Ends.ofReading _).map _
  | unsigned32 width =>
    apply (Ends.ofReading _).bind
    intro wide
    by_cases hfits : wide.toInt ≤ Int32.maxValue.toInt
    · simp only [hfits, if_true]
      exact .pure _
    · simp only [hfits, if_false]
      exact .ofExcept (.error _)
  | enum variants =>
    apply (Ends.ofReading _).bind
    intro byte
    by_cases hvariant : byte.toNat < variants
    · simp only [hvariant, if_true]
      exact .pure _
    · simp only [hvariant, if_false]
      exact .ofExcept (.error _)
  | text =>
    apply readVariable_ends.bind
    intro string
    cases Utf8.decode? string with
    | none => exact .ofExcept (.error _)
    | some text => exact .pure _
  | bytes => exact readVariable_ends.map _

end Leaves

/-! ## Ranked plans -/

/-- Entering a record that reaches a cycle adds one to the depth, up to the limit. -/
theorem Limits.enter_true_eq_ok {limits : Limits} {depth inner : Nat}
    (hlimit : limits.nestingDepth < maxCount) (h : limits.enter true depth = .ok inner) :
    inner = depth + 1 ∧ inner ≤ limits.nestingDepth := by
  by_cases hdeep : limits.nestingDepth < min (depth + 1) maxCount
  · simp [enter, hdeep] at h
  · simp only [enter, if_true, hdeep, if_false, Except.ok.injEq] at h
    omega

namespace Program

variable {program : Program} {rank : Nat → Nat} {limits : Limits} {place target : Nat}

/-- Every plan that does not reach a cycle nests only plans of a lower rank.  So every way through
the plans that comes back to where it started passes one that does. -/
def Graded (program : Program) (rank : Nat → Nat) : Prop :=
  ∀ place, (program.plan place).cyclic = false → ∀ step ∈ (program.plan place).steps,
    ∀ target, step.wire = .nested target → rank target < rank place

/-- The places of the plans that may be opened inside `place` before the depth grows. -/
def below (program : Program) (rank : Nat → Nat) (place : Nat) : Finset Nat :=
  (Finset.range program.plans.size).filter fun other =>
    (program.plan other).cyclic = false ∧
      ((program.plan place).cyclic = false → rank other < rank place)

theorem mem_below {other : Nat} :
    other ∈ program.below rank place ↔ other < program.plans.size ∧
      (program.plan other).cyclic = false ∧
        ((program.plan place).cyclic = false → rank other < rank place) := by
  simp [below]

theorem card_below_lt (hplace : place < program.plans.size) :
    (program.below rank place).card < program.plans.size := by
  have hnot : place ∉ program.below rank place := by
    intro hmem
    obtain ⟨-, hflag, hlower⟩ := mem_below.1 hmem
    exact Nat.lt_irrefl _ (hlower hflag)
  have hsubset : program.below rank place ⊆ Finset.range program.plans.size :=
    Finset.filter_subset _ _
  calc
    (program.below rank place).card < (Finset.range program.plans.size).card := by
      apply Finset.card_lt_card
      rw [Finset.ssubset_iff_of_subset hsubset]
      exact ⟨place, Finset.mem_range.2 hplace, hnot⟩
    _ = program.plans.size := Finset.card_range _

/-- Opening a record that reaches no cycle leaves fewer plans to open. -/
theorem Graded.card_below_lt_of_step (hgraded : program.Graded rank) {step : Step Nat}
    (hstep : step ∈ (program.plan place).steps) (hwire : step.wire = .nested target)
    (hrange : target < program.plans.size) (htarget : (program.plan target).cyclic = false) :
    (program.below rank target).card < (program.below rank place).card := by
  have hlower : (program.plan place).cyclic = false → rank target < rank place :=
    fun hflag => hgraded place hflag step hstep target hwire
  apply Finset.card_lt_card
  rw [Finset.ssubset_iff_of_subset]
  · refine ⟨target, mem_below.2 ⟨hrange, htarget, hlower⟩, fun hmem => ?_⟩
    exact Nat.lt_irrefl _ ((mem_below.1 hmem).2.2 htarget)
  · intro other hmem
    obtain ⟨hother, hflag, hbelow⟩ := mem_below.1 hmem
    exact mem_below.2 ⟨hother, hflag, fun hplace => (hbelow htarget).trans (hlower hplace)⟩

/-- The budget that is enough for reading `place` at some depth: a whole round of plans for each
level that is left, and on this level the plans that may still be opened. -/
def reserve (program : Program) (rank : Nat → Nat) (limits : Limits) (place depth : Nat) : Nat :=
  (limits.nestingDepth - depth) * program.plans.size + (program.below rank place).card

/-- Every nested record that may be opened needs less. -/
theorem Graded.reserve_lt (hgraded : program.Graded rank) (hrange : program.InRange)
    (hlimit : limits.nestingDepth < maxCount) {step : Step Nat} {depth inner : Nat}
    (hstep : step ∈ (program.plan place).steps) (hwire : step.wire = .nested target)
    (hdepth : depth ≤ limits.nestingDepth)
    (henter : limits.enter (program.plan target).cyclic depth = .ok inner) :
    inner ≤ limits.nestingDepth ∧
      program.reserve rank limits target inner < program.reserve rank limits place depth := by
  have htarget : target < program.plans.size := hrange.target_lt hstep hwire
  cases hflag : (program.plan target).cyclic with
  | false =>
    rw [hflag] at henter
    obtain rfl : depth = inner := Except.ok.inj henter
    have hfewer := hgraded.card_below_lt_of_step hstep hwire htarget hflag
    exact ⟨hdepth, Nat.add_lt_add_left hfewer _⟩
  | true =>
    rw [hflag] at henter
    obtain ⟨rfl, hinner⟩ := Limits.enter_true_eq_ok hlimit henter
    refine ⟨hinner, ?_⟩
    calc
      program.reserve rank limits target (depth + 1) <
          (limits.nestingDepth - (depth + 1)) * program.plans.size + program.plans.size :=
        Nat.add_lt_add_left (card_below_lt htarget) _
      _ = (limits.nestingDepth - (depth + 1) + 1) * program.plans.size := by
        rw [Nat.succ_mul]
      _ = (limits.nestingDepth - depth) * program.plans.size := by
        congr 1
        omega
      _ ≤ program.reserve rank limits place depth := Nat.le_add_right _ _

/-- With more budget than is kept in reserve, reading ends. -/
theorem Graded.decodeRecord_ends (hgraded : program.Graded rank) (hrange : program.InRange)
    (hlimit : limits.nestingDepth < maxCount) {σ : Type} [Source σ] {budget depth : Nat}
    (hdepth : depth ≤ limits.nestingDepth)
    (hbudget : program.reserve rank limits place depth < budget) :
    Decoding.Ends (decodeRecord program.plan limits budget place depth :
      Decoding σ (List Value)) := by
  induction budget generalizing place depth with
  | zero => exact absurd hbudget (Nat.not_lt_zero _)
  | succ budget ih =>
    apply Decoding.Ends.mapM
    intro step hstep
    cases hwire : step.wire with
    | leaf kind =>
      rw [decodeStep_of_leaf hwire]
      exact Leaf.decode_ends _ _ kind
    | nested target =>
      rw [decodeStep_of_nested hwire]
      apply Decoding.Ends.ofExcept_bind
      intro inner henter
      obtain ⟨hinner, hless⟩ := hgraded.reserve_lt hrange hlimit hstep hwire hdepth henter
      exact (ih hinner (by omega)).map _

/-- A budget of one round of plans for each depth up to the limit is enough for the root record, and
more changes nothing. -/
theorem Graded.exists_run_decodeRecord (hgraded : program.Graded rank) (hrange : program.InRange)
    (hroot : 0 < program.plans.size) (hlimit : limits.nestingDepth < maxCount) {σ : Type}
    [Source σ] (source : σ) :
    ∃ result, ∀ budget, (limits.nestingDepth + 1) * program.plans.size ≤ budget →
      (decodeRecord program.plan limits budget 0 0).run source = some result := by
  have hreserve : program.reserve rank limits 0 0 <
      (limits.nestingDepth + 1) * program.plans.size := by
    rw [Nat.succ_mul]
    exact Nat.add_lt_add_left (card_below_lt hroot) _
  have hends : (decodeRecord program.plan limits ((limits.nestingDepth + 1) * program.plans.size)
      0 0).run source ≠ none :=
    hgraded.decodeRecord_ends hrange hlimit (Nat.zero_le _) hreserve source
  obtain ⟨result, hrun⟩ := Option.ne_none_iff_exists'.1 hends
  exact ⟨result, fun budget hbudget => decodeRecord_mono hbudget hrun⟩

end Program

end RecordCodec
