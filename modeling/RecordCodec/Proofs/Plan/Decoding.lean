import RecordCodec.Plan.Decode
import RecordCodec.Proofs.Stream.Simulation

/-!
# Computations that read

A computation that reads ends with an outcome and a source, or its budget is spent.  The first half
says when a composed computation succeeds, or fails, or ends at all.  The second half compares two
computations: one follows another if it ends in the same way wherever the other one ends.
-/

namespace RecordCodec

namespace Decoding

variable {σ α β : Type} {source after : σ}

/-! ## Runs of composed computations -/

@[simp]
theorem run_pure (value : α) : (pure value : Decoding σ α).run source = some (.ok value, source) :=
  rfl

@[simp]
theorem run_throw (error : CodecError) :
    (throw error : Decoding σ α).run source = some (.error error, source) :=
  rfl

@[simp]
theorem run_ofExcept (outcome : Except CodecError α) :
    (ofExcept outcome : Decoding σ α).run source = some (outcome, source) :=
  rfl

@[simp]
theorem run_remaining [Source σ] :
    (remaining : Decoding σ Nat).run source = some (.ok (Source.remaining source), source) :=
  rfl

theorem run_ofReading (reading : Reading σ α) :
    (ofReading reading).run source =
      some ((reading.run source).1.mapError CodecError.stream, (reading.run source).2) :=
  rfl

theorem run_bind (first : Decoding σ α) (next : α → Decoding σ β) :
    (first >>= next).run source =
      (first.run source).bind fun result =>
        match result with
        | (.ok value, reached) => (next value).run reached
        | (.error error, reached) => some (.error error, reached) := by
  change (first.run source).bind (fun result => ExceptT.bindCont next result.1 result.2) = _
  congr 1
  funext result
  rcases result with ⟨outcome, reached⟩
  cases outcome <;> rfl

theorem run_bind_of_ok {first : Decoding σ α} {next : α → Decoding σ β} {value : α}
    (h : first.run source = some (.ok value, after)) :
    (first >>= next).run source = (next value).run after := by
  rw [run_bind, h]
  rfl

theorem run_bind_of_error {first : Decoding σ α} {next : α → Decoding σ β} {error : CodecError}
    (h : first.run source = some (.error error, after)) :
    (first >>= next).run source = some (.error error, after) := by
  rw [run_bind, h]
  rfl

theorem run_bind_of_none {first : Decoding σ α} {next : α → Decoding σ β}
    (h : first.run source = none) : (first >>= next).run source = none := by
  rw [run_bind, h]
  rfl

theorem bind_eq_ok_iff {first : Decoding σ α} {next : α → Decoding σ β} {value : β} :
    (first >>= next).run source = some (.ok value, after) ↔
      ∃ inner reached, first.run source = some (.ok inner, reached) ∧
        (next inner).run reached = some (.ok value, after) := by
  constructor
  · intro h
    cases hfirst : first.run source with
    | none => rw [run_bind_of_none hfirst] at h; cases h
    | some result =>
      rcases result with ⟨outcome, reached⟩
      cases outcome with
      | error error => rw [run_bind_of_error hfirst] at h; cases h
      | ok inner =>
        rw [run_bind_of_ok hfirst] at h
        exact ⟨inner, reached, rfl, h⟩
  · rintro ⟨inner, reached, hfirst, hnext⟩
    rw [run_bind_of_ok hfirst, hnext]

/-- A source that is too short is refused before anything is read. -/
theorem run_unless_short [Source σ] (needed : Nat) (error : Nat → CodecError)
    (decoding : Decoding σ α) :
    (do
      let available ← remaining
      if available < needed then
        throw (error available)
      decoding : Decoding σ α).run source =
      if Source.remaining source < needed then
        some (.error (error (Source.remaining source)), source)
      else
        decoding.run source := by
  rw [run_bind_of_ok run_remaining]
  by_cases hshort : Source.remaining source < needed
  · simp only [hshort, if_true]
    exact run_bind_of_error (run_throw _)
  · simp only [hshort, if_false]

theorem run_map (f : α → β) (first : Decoding σ α) :
    (f <$> first).run source =
      (first.run source).map fun result => (result.1.map f, result.2) := by
  rw [map_eq_pure_bind, run_bind]
  cases first.run source with
  | none => rfl
  | some result =>
    rcases result with ⟨outcome, reached⟩
    cases outcome <;> rfl

theorem map_eq_ok_iff {f : α → β} {first : Decoding σ α} {value : β} :
    (f <$> first).run source = some (.ok value, after) ↔
      ∃ inner, first.run source = some (.ok inner, after) ∧ f inner = value := by
  rw [map_eq_pure_bind, bind_eq_ok_iff]
  constructor
  · rintro ⟨inner, reached, hfirst, hpure⟩
    cases hpure
    exact ⟨inner, hfirst, rfl⟩
  · rintro ⟨inner, hfirst, rfl⟩
    exact ⟨inner, after, hfirst, rfl⟩

theorem ofReading_eq_ok_iff {reading : Reading σ α} {value : α} :
    (ofReading reading).run source = some (.ok value, after) ↔
      reading.run source = (.ok value, after) := by
  rw [run_ofReading]
  generalize reading.run source = result
  rcases result with ⟨outcome, reached⟩
  constructor
  · intro h
    cases outcome with
    | error error => cases h
    | ok inner =>
      cases h
      rfl
  · intro h
    cases h
    rfl

theorem mapM_cons_eq_ok_iff {f : α → Decoding σ β} {head : α} {tail : List α} {values : List β} :
    ((head :: tail).mapM f).run source = some (.ok values, after) ↔
      ∃ first rest reached, values = first :: rest ∧
        (f head).run source = some (.ok first, reached) ∧
        (tail.mapM f).run reached = some (.ok rest, after) := by
  rw [List.mapM_cons, bind_eq_ok_iff]
  constructor
  · rintro ⟨first, reached, hfirst, hnext⟩
    obtain ⟨rest, end_, hrest, hpure⟩ := bind_eq_ok_iff.1 hnext
    cases hpure
    exact ⟨first, rest, reached, rfl, hfirst, hrest⟩
  · rintro ⟨first, rest, reached, rfl, hfirst, hrest⟩
    exact ⟨first, reached, hfirst, bind_eq_ok_iff.2 ⟨rest, after, hrest, rfl⟩⟩

/-! A composed computation spends its budget in its first part, or after it. -/

theorem bind_eq_none_iff {first : Decoding σ α} {next : α → Decoding σ β} :
    (first >>= next).run source = none ↔
      first.run source = none ∨
        ∃ value reached, first.run source = some (.ok value, reached) ∧
          (next value).run reached = none := by
  cases hfirst : first.run source with
  | none => simp [run_bind_of_none hfirst]
  | some result =>
    rcases result with ⟨outcome, reached⟩
    cases outcome with
    | error error => simp [run_bind_of_error hfirst]
    | ok value => simp [run_bind_of_ok hfirst]

theorem map_eq_none_iff {f : α → β} {first : Decoding σ α} :
    (f <$> first).run source = none ↔ first.run source = none := by
  rw [run_map, Option.map_eq_none_iff]

theorem mapM_cons_eq_none_iff {f : α → Decoding σ β} {head : α} {tail : List α} :
    ((head :: tail).mapM f).run source = none ↔
      (f head).run source = none ∨
        ∃ value reached, (f head).run source = some (.ok value, reached) ∧
          (tail.mapM f).run reached = none := by
  simp only [List.mapM_cons, bind_eq_none_iff, run_pure, reduceCtorEq, and_false, exists_false,
    or_false]

/-! ## Computations that follow one another -/

variable {τ : Type}

/-- Wherever `first` ends, `second` ends with the same outcome, and the sources stay related. -/
def Follows (related : σ → τ → Prop) (first : Decoding σ α) (second : Decoding τ α) : Prop :=
  ∀ source other, related source other → ∀ outcome after,
    first.run source = some (outcome, after) →
    ∃ reached, second.run other = some (outcome, reached) ∧ related after reached

namespace Follows

variable {related : σ → τ → Prop}

theorem ofExcept (outcome : Except CodecError α) :
    Follows related (ofExcept outcome) (ofExcept outcome) := by
  intro source other hrelated _ _ hrun
  cases hrun
  exact ⟨other, rfl, hrelated⟩

theorem exhausted (second : Decoding τ α) : Follows related exhausted second := by
  intro source other _ _ _ hrun
  cases hrun

theorem ofReading {first : Reading σ α} {second : Reading τ α}
    (h : first.Agrees related second) : Follows related (ofReading first) (ofReading second) := by
  intro source other hrelated outcome after hrun
  obtain ⟨houtcome, hafter⟩ := h source other hrelated
  rw [run_ofReading] at hrun ⊢
  cases hrun
  rw [houtcome]
  exact ⟨_, rfl, hafter⟩

theorem bind {first : Decoding σ α} {second : Decoding τ α} {next : α → Decoding σ β}
    {next' : α → Decoding τ β} (hfirst : Follows related first second)
    (hnext : ∀ value, Follows related (next value) (next' value)) :
    Follows related (first >>= next) (second >>= next') := by
  intro source other hrelated outcome after hrun
  cases hstart : first.run source with
  | none =>
    rw [run_bind_of_none hstart] at hrun
    cases hrun
  | some result =>
    rcases result with ⟨inner, reached⟩
    obtain ⟨reached', hsecond, hrelated'⟩ := hfirst source other hrelated _ _ hstart
    cases inner with
    | error error =>
      rw [run_bind_of_error hstart] at hrun
      cases hrun
      exact ⟨reached', run_bind_of_error hsecond, hrelated'⟩
    | ok value =>
      rw [run_bind_of_ok hstart] at hrun
      rw [run_bind_of_ok hsecond]
      exact hnext value reached reached' hrelated' _ _ hrun

theorem map {first : Decoding σ α} {second : Decoding τ α} (f : α → β)
    (hfirst : Follows related first second) : Follows related (f <$> first) (f <$> second) := by
  rw [map_eq_pure_bind, map_eq_pure_bind]
  exact hfirst.bind fun value => ofExcept (.ok (f value))

theorem mapM {γ : Type} {f : γ → Decoding σ α} {g : γ → Decoding τ α}
    (h : ∀ item, Follows related (f item) (g item)) (items : List γ) :
    Follows related (items.mapM f) (items.mapM g) := by
  induction items with
  | nil =>
    rw [List.mapM_nil, List.mapM_nil]
    exact ofExcept (.ok [])
  | cons item items ih =>
    rw [List.mapM_cons, List.mapM_cons]
    exact (h item).bind fun _ => ih.bind fun _ => ofExcept (.ok _)

/-- Computations that follow each other end alike: where the one leaves its source tells where the
other does. -/
theorem run_eq_map {first : Decoding σ α} {second : Decoding τ α} {counterpart : τ → σ}
    (hfirst : Follows related first second)
    (hsecond : Follows (Function.swap related) second first)
    (hcounterpart : ∀ source other, related source other → source = counterpart other)
    {source : σ} {other : τ} (hrelated : related source other) :
    first.run source =
      (second.run other).map fun result => (result.1, counterpart result.2) := by
  cases hother : second.run other with
  | some result =>
    obtain ⟨reached, hrun, hreached⟩ := hsecond other source hrelated result.1 result.2 hother
    rw [hrun, hcounterpart reached result.2 hreached]
    rfl
  | none =>
    cases hrun : first.run source with
    | none => rfl
    | some result =>
      obtain ⟨_, hsome, -⟩ := hfirst source other hrelated result.1 result.2 hrun
      cases hother.symm.trans hsome

end Follows

end Decoding

/-! ## Reading by a plan -/

section Plans

open Decoding

variable {σ τ : Type} [Source σ] [Source τ] {related : σ → τ → Prop} {limits : Limits}

theorem readVariable_follows (h : Source.Simulates related) :
    Follows related (readVariable limits) (readVariable limits) := by
  apply (Follows.ofReading h.readUInt16).bind
  intro announced
  by_cases hlimit : limits.effectiveLength < announced.toNat
  · simp only [hlimit, if_true]
    exact (Follows.ofExcept (.error _)).bind fun _ => .ofReading (h.readBytes _)
  · simp only [hlimit, if_false]
    exact .ofReading (h.readBytes _)

theorem Leaf.decode_follows (h : Source.Simulates related) (record field : String) (leaf : Leaf) :
    Follows related (leaf.decode record field limits) (leaf.decode record field limits) := by
  cases leaf with
  | int8 => exact (Follows.ofReading (h.readUInt8.map _)).map _
  | int16 => exact (Follows.ofReading (h.readUInt16.map _)).map _
  | int32 => exact (Follows.ofReading (h.readUInt32.map _)).map _
  | int64 => exact (Follows.ofReading (h.readUInt64.map _)).map _
  | float32 => exact (Follows.ofReading h.readUInt32).map _
  | float64 => exact (Follows.ofReading h.readUInt64).map _
  | char16 => exact (Follows.ofReading h.readUInt16).map _
  | unsigned32 width =>
    apply (Follows.ofReading (h.readUnsigned width)).bind
    intro wide
    by_cases hfits : wide.toInt ≤ Int32.maxValue.toInt
    · simp only [hfits, if_true]
      exact .ofExcept (.ok _)
    · simp only [hfits, if_false]
      exact .ofExcept (.error _)
  | unsigned64 width => exact (Follows.ofReading (h.readUnsigned width)).map _
  | enum variants =>
    apply (Follows.ofReading h.readUInt8).bind
    intro byte
    by_cases hvariant : byte.toNat < variants
    · simp only [hvariant, if_true]
      exact .ofExcept (.ok _)
    · simp only [hvariant, if_false]
      exact .ofExcept (.error _)
  | text =>
    apply (readVariable_follows h).bind
    intro string
    cases Utf8.decode? string with
    | none => exact .ofExcept (.error _)
    | some text => exact .ofExcept (.ok _)
  | bytes => exact (readVariable_follows h).map _

variable {ρ : Type} {planOf : ρ → Plan ρ}

section Steps

variable {nested : ρ → (depth : Nat) → Decoding σ (List Value)} {record : String} {depth : Nat}
variable {step : Step ρ} {source after : σ}

theorem decodeStep_of_leaf {kind : Leaf} (hwire : step.wire = .leaf kind) :
    decodeStep planOf limits nested record depth step = kind.decode record step.field limits := by
  rw [decodeStep, hwire]

theorem decodeStep_of_nested {target : ρ} (hwire : step.wire = .nested target) :
    decodeStep planOf limits nested record depth step = (do
      let inner ← Decoding.ofExcept (limits.enter (planOf target).cyclic depth)
      Value.record <$> nested target inner) := by
  rw [decodeStep, hwire]

/-- A nested record is read at the depth inside it. -/
theorem decodeStep_nested_eq_ok_iff {target : ρ} (hwire : step.wire = .nested target)
    {value : Value} :
    (decodeStep planOf limits nested record depth step).run source = some (.ok value, after) ↔
      ∃ inner fields, limits.enter (planOf target).cyclic depth = .ok inner ∧
        (nested target inner).run source = some (.ok fields, after) ∧ .record fields = value := by
  rw [decodeStep_of_nested hwire, bind_eq_ok_iff]
  constructor
  · rintro ⟨inner, entered, henter, hrecord⟩
    rw [run_ofExcept] at henter
    obtain ⟨hinner, rfl⟩ := Prod.mk.inj (Option.some.inj henter)
    obtain ⟨fields, hfields, hvalue⟩ := map_eq_ok_iff.1 hrecord
    exact ⟨inner, fields, hinner, hfields, hvalue⟩
  · rintro ⟨inner, fields, henter, hfields, hvalue⟩
    refine ⟨inner, source, ?_, map_eq_ok_iff.2 ⟨fields, hfields, hvalue⟩⟩
    rw [run_ofExcept, henter]

/-- A nested record spends the budget only inside it. -/
theorem decodeStep_nested_eq_none_iff {target : ρ} (hwire : step.wire = .nested target) :
    (decodeStep planOf limits nested record depth step).run source = none ↔
      ∃ inner, limits.enter (planOf target).cyclic depth = .ok inner ∧
        (nested target inner).run source = none := by
  rw [decodeStep_of_nested hwire, bind_eq_none_iff, run_ofExcept]
  constructor
  · rintro (hnone | ⟨inner, entered, henter, hrecord⟩)
    · cases hnone
    · obtain ⟨hinner, rfl⟩ := Prod.mk.inj (Option.some.inj henter)
      exact ⟨inner, hinner, map_eq_none_iff.1 hrecord⟩
  · rintro ⟨inner, henter, hrecord⟩
    exact .inr ⟨inner, source, by rw [henter], map_eq_none_iff.2 hrecord⟩

end Steps

theorem decodeStep_follows (h : Source.Simulates related)
    {nested : ρ → (depth : Nat) → Decoding σ (List Value)}
    {nested' : ρ → (depth : Nat) → Decoding τ (List Value)}
    (hnested : ∀ target depth, Follows related (nested target depth) (nested' target depth))
    (record : String) (depth : Nat) (step : Step ρ) :
    Follows related (decodeStep planOf limits nested record depth step)
      (decodeStep planOf limits nested' record depth step) := by
  cases hwire : step.wire with
  | leaf kind =>
    rw [decodeStep_of_leaf hwire, decodeStep_of_leaf hwire]
    exact Leaf.decode_follows h record step.field kind
  | nested target =>
    rw [decodeStep_of_nested hwire, decodeStep_of_nested hwire]
    exact (Follows.ofExcept _).bind fun inner => (hnested target inner).map _

/-- More budget changes nothing in a run that ends, and sources that simulate each other end in the
same way. -/
theorem decodeRecord_follows (h : Source.Simulates related) {budget budget' : Nat}
    (hle : budget ≤ budget') (record : ρ) (depth : Nat) :
    Follows related (decodeRecord planOf limits budget record depth)
      (decodeRecord planOf limits budget' record depth) := by
  induction budget generalizing budget' record depth with
  | zero => exact .exhausted _
  | succ budget ih =>
    obtain ⟨larger, rfl⟩ : ∃ larger, budget' = larger + 1 := ⟨budget' - 1, by omega⟩
    exact .mapM (decodeStep_follows h (ih (Nat.le_of_succ_le_succ hle)) _ depth) _

/-- A run that ends is the same with more budget. -/
theorem decodeRecord_mono {budget budget' : Nat} (hle : budget ≤ budget') {record : ρ}
    {depth : Nat} {source : σ} {result : Except CodecError (List Value) × σ}
    (hrun : (decodeRecord planOf limits budget record depth).run source = some result) :
    (decodeRecord planOf limits budget' record depth).run source = some result := by
  obtain ⟨reached, hrun', rfl⟩ := decodeRecord_follows Source.simulates_eq hle record depth
    source source rfl result.1 result.2 hrun
  exact hrun'

end Plans

/-! ## The root record -/

namespace Program

variable {σ : Type} [Source σ] {source : σ} {program : Program} {limits : Limits}

theorem run_decodeUnchecked :
    (program.decodeUnchecked limits).run source =
      (decodeRecord program.plan limits
        (program.budget limits (Source.remaining source)) 0 0).run source :=
  rfl

theorem run_decodeChecked_of_none (hsize : program.root.fixedSize = none) :
    (program.decodeChecked limits).run source = (program.decodeUnchecked limits).run source := by
  rw [decodeChecked, hsize]

theorem run_decodeChecked_of_some {size : Nat} (hsize : program.root.fixedSize = some size) :
    (program.decodeChecked limits).run source =
      if Source.remaining source < size then
        some (.error (.insufficientData program.root.name size (Source.remaining source)), source)
      else
        (program.decodeUnchecked limits).run source := by
  rw [decodeChecked, hsize]
  exact Decoding.run_unless_short size _ _

section Following

open Decoding

variable {τ : Type} [Source τ] {related : σ → τ → Prop}

theorem decodeUnchecked_follows (h : Source.Simulates related) :
    Follows related (program.decodeUnchecked limits) (program.decodeUnchecked limits) := by
  intro source other hrelated
  rw [run_decodeUnchecked, run_decodeUnchecked, h.remaining source other hrelated]
  exact decodeRecord_follows h (Nat.le_refl _) 0 0 source other hrelated

theorem decodeChecked_follows (h : Source.Simulates related) :
    Follows related (program.decodeChecked limits) (program.decodeChecked limits) := by
  intro source other hrelated
  cases hsize : program.root.fixedSize with
  | none =>
    rw [run_decodeChecked_of_none hsize, run_decodeChecked_of_none hsize]
    exact decodeUnchecked_follows h source other hrelated
  | some size =>
    rw [run_decodeChecked_of_some hsize, run_decodeChecked_of_some hsize,
      h.remaining source other hrelated]
    by_cases hshort : Source.remaining other < size
    · rw [if_pos hshort, if_pos hshort]
      exact Follows.ofExcept (.error _) source other hrelated
    · rw [if_neg hshort, if_neg hshort]
      exact decodeUnchecked_follows h source other hrelated

end Following

end Program

end RecordCodec
