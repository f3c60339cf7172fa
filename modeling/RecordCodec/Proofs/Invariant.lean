import RecordCodec.Layout.Registry
import Mathlib.Tactic.Common

/-!
# Invariants

A computation on a state leads from one predicate to others, one for its successes and one for its
failures.  It maintains an invariant if that holds afterwards whenever it did before, in either
case; the value of a success may be promised a property.  A memo table keeps a property of all its
entries if every new entry has it.
-/

namespace RecordCodec

section

variable {ε σ α β : Type} {invariant : σ → Prop} {property : α → Prop} {further : β → Prop}

/-! ## Runs of composed computations -/

section Runs

variable {first : ExceptT ε (StateM σ) α} {state : σ}

theorem run_get_bind {next : σ → ExceptT ε (StateM σ) β} :
    (get >>= next).run state = (next state).run state :=
  rfl

theorem run_bind_of_ok {next : α → ExceptT ε (StateM σ) β} {value : α} {after : σ}
    (h : first.run state = (.ok value, after)) :
    (first >>= next).run state = (next value).run after := by
  change ExceptT.bindCont next (first.run state).1 (first.run state).2 = _
  rw [h]
  rfl

theorem run_bind_of_error {next : α → ExceptT ε (StateM σ) β} {error : ε} {after : σ}
    (h : first.run state = (.error error, after)) :
    (first >>= next).run state = (.error error, after) := by
  change ExceptT.bindCont next (first.run state).1 (first.run state).2 = _
  rw [h]
  rfl

theorem exists_run_of_bind_ok {next : α → ExceptT ε (StateM σ) β} {value : β}
    (h : ((first >>= next).run state).1 = .ok value) :
    ∃ inner, (first.run state).1 = .ok inner ∧
      ((next inner).run (first.run state).2).1 = .ok value := by
  change (ExceptT.bindCont next (first.run state).1 (first.run state).2).1 = .ok value at h
  cases hfirst : (first.run state).1 with
  | error error =>
    rw [hfirst] at h
    cases h
  | ok inner =>
    rw [hfirst] at h
    exact ⟨inner, rfl, h⟩

/-- Nothing changes if what follows a success does nothing. -/
theorem run_bind_of_pure {next : α → ExceptT ε (StateM σ) α}
    (h : ∀ value, (first.run state).1 = .ok value → next value = pure value) :
    (first >>= next).run state = first.run state := by
  change ExceptT.bindCont next (first.run state).1 (first.run state).2 = _
  generalize first.run state = result at h ⊢
  rcases result with ⟨outcome, after⟩
  cases outcome with
  | error error => rfl
  | ok value =>
    change (next value).run after = _
    rw [h value rfl]
    rfl

end Runs

/-! ## What a computation leads to -/

/-- Started where `before` holds, the computation ends where `succeeds` holds of a success and its
value, or `fails` of a failure and its error. -/
def Leads (before : σ → Prop) (succeeds : α → σ → Prop) (fails : ε → σ → Prop)
    (computation : ExceptT ε (StateM σ) α) : Prop :=
  ∀ state, before state →
    (∀ value, (computation.run state).1 = .ok value → succeeds value (computation.run state).2) ∧
      ∀ error, (computation.run state).1 = .error error → fails error (computation.run state).2

namespace Leads

variable {before : σ → Prop} {between : α → σ → Prop} {succeeds : β → σ → Prop}
variable {fails : ε → σ → Prop}

theorem ofExcept {outcome : Except ε β}
    (hok : ∀ value, outcome = .ok value → ∀ state, before state → succeeds value state)
    (herror : ∀ error, outcome = .error error → ∀ state, before state → fails error state) :
    Leads before succeeds fails (ExceptT.mk (pure outcome) : ExceptT ε (StateM σ) β) :=
  fun state hstate =>
    ⟨fun value heq => hok value heq state hstate, fun error heq => herror error heq state hstate⟩

theorem pure {value : β} (h : ∀ state, before state → succeeds value state) :
    Leads before succeeds fails (Pure.pure value : ExceptT ε (StateM σ) β) :=
  ofExcept (fun _ heq => Except.ok.inj heq ▸ h) nofun

theorem bind {first : ExceptT ε (StateM σ) α} {next : α → ExceptT ε (StateM σ) β}
    (hfirst : Leads before between fails first)
    (hnext : ∀ value, Leads (between value) succeeds fails (next value)) :
    Leads before succeeds fails (first >>= next) := by
  intro state hstate
  obtain ⟨hok, herror⟩ := hfirst state hstate
  change (∀ value, (ExceptT.bindCont next (first.run state).1 (first.run state).2).1 = .ok value →
      succeeds value (ExceptT.bindCont next (first.run state).1 (first.run state).2).2) ∧
    ∀ error, (ExceptT.bindCont next (first.run state).1 (first.run state).2).1 = .error error →
      fails error (ExceptT.bindCont next (first.run state).1 (first.run state).2).2
  generalize first.run state = result at hok herror
  rcases result with ⟨outcome, reached⟩
  cases outcome with
  | error error => exact ⟨nofun, fun _ heq => Except.error.inj heq ▸ herror error rfl⟩
  | ok value => exact hnext value reached (hok value rfl)

theorem map {computation : ExceptT ε (StateM σ) α} {f : α → β}
    (h : Leads before between fails computation)
    (hf : ∀ value state, between value state → succeeds (f value) state) :
    Leads before succeeds fails (f <$> computation) := by
  rw [map_eq_pure_bind]
  exact h.bind fun value => pure (hf value)

/-- What does not depend on the state may be known beforehand. -/
theorem given {known : Prop} {computation : ExceptT ε (StateM σ) β}
    (h : known → Leads before succeeds fails computation) :
    Leads (fun state => known ∧ before state) succeeds fails computation :=
  fun state hstate => h hstate.1 state hstate.2

theorem of_imp {earlier : σ → Prop} {computation : ExceptT ε (StateM σ) β}
    (h : Leads before succeeds fails computation)
    (hearlier : ∀ state, earlier state → before state) :
    Leads earlier succeeds fails computation :=
  fun state hstate => h state (hearlier state hstate)

theorem imp {succeeds' : β → σ → Prop} {fails' : ε → σ → Prop}
    {computation : ExceptT ε (StateM σ) β} (h : Leads before succeeds fails computation)
    (hok : ∀ value state, succeeds value state → succeeds' value state)
    (herror : ∀ error state, fails error state → fails' error state) :
    Leads before succeeds' fails' computation :=
  fun state hstate =>
    ⟨fun value heq => hok _ _ ((h state hstate).1 value heq),
      fun error heq => herror _ _ ((h state hstate).2 error heq)⟩

/-- What holds after success and after failure holds in any case. -/
theorem holds_after {after : σ → Prop} {computation : ExceptT ε (StateM σ) β}
    (h : Leads before succeeds fails computation)
    (hok : ∀ value state, succeeds value state → after state)
    (herror : ∀ error state, fails error state → after state) {state : σ} (hstate : before state) :
    after (computation.run state).2 := by
  cases houtcome : (computation.run state).1 with
  | error error => exact herror error _ ((h state hstate).2 error houtcome)
  | ok value => exact hok value _ ((h state hstate).1 value houtcome)

/-- Errors that are only told in other words. -/
theorem mapError {ε' : Type} {told : ε' → σ → Prop} {computation : StateM σ (Except ε β)}
    (translate : ε → ε') (h : Leads before succeeds fails (ExceptT.mk computation))
    (htold : ∀ error state, fails error state → told (translate error) state) :
    Leads before succeeds told (ExceptT.mk do
      return (← computation).mapError translate) := by
  intro state hstate
  obtain ⟨hok, herror⟩ := h state hstate
  change (∀ value, (computation state).1.mapError translate = .ok value →
      succeeds value (computation state).2) ∧
    ∀ error, (computation state).1.mapError translate = .error error →
      told error (computation state).2
  change (∀ value, (computation state).1 = .ok value → succeeds value (computation state).2) at hok
  change (∀ error, (computation state).1 = .error error → fails error (computation state).2)
    at herror
  generalize computation state = result at hok herror
  rcases result with ⟨outcome, reached⟩
  cases outcome with
  | error error => exact ⟨nofun, fun _ heq => Except.error.inj heq ▸ htold _ _ (herror error rfl)⟩
  | ok value => exact ⟨fun _ heq => hok _ (congrArg Except.ok (Except.ok.inj heq)), nofun⟩

end Leads

/-! ## What a computation maintains -/

def Maintains (invariant : σ → Prop) (property : α → Prop) (computation : ExceptT ε (StateM σ) α) :
    Prop :=
  ∀ state, invariant state →
    invariant (computation.run state).2 ∧
      ∀ value, (computation.run state).1 = .ok value → property value

/-- To maintain an invariant is to lead to it in any case. -/
theorem maintains_iff_leads {computation : ExceptT ε (StateM σ) α} :
    Maintains invariant property computation ↔
      Leads invariant (fun value state => property value ∧ invariant state)
        (fun _ state => invariant state) computation := by
  constructor
  · intro h state hstate
    obtain ⟨hafter, hvalue⟩ := h state hstate
    exact ⟨fun value heq => ⟨hvalue value heq, hafter⟩, fun _ _ => hafter⟩
  · intro h state hstate
    exact ⟨h.holds_after (fun _ _ hvalue => hvalue.2) (fun _ _ hafter => hafter) hstate,
      fun value heq => ((h state hstate).1 value heq).1⟩

namespace Maintains

theorem ofExcept {outcome : Except ε α} (h : ∀ value, outcome = .ok value → property value) :
    Maintains invariant property (ExceptT.mk (pure outcome) : ExceptT ε (StateM σ) α) :=
  fun _ hstate => ⟨hstate, h⟩

theorem pure {value : α} (h : property value) :
    Maintains invariant property (Pure.pure value : ExceptT ε (StateM σ) α) :=
  ofExcept fun _ heq => Except.ok.inj heq ▸ h

theorem bind {first : ExceptT ε (StateM σ) α} {next : α → ExceptT ε (StateM σ) β}
    (hfirst : Maintains invariant property first)
    (hnext : ∀ value, property value → Maintains invariant further (next value)) :
    Maintains invariant further (first >>= next) :=
  maintains_iff_leads.2 ((maintains_iff_leads.1 hfirst).bind fun value =>
    .given fun hvalue => maintains_iff_leads.1 (hnext value hvalue))

end Maintains

end

/-! ## Memo tables -/

namespace Memo

variable {n : Nat} {α : Type} {holds : RecordId n → α → Prop}

def All (holds : RecordId n → α → Prop) (memo : Memo n α) : Prop :=
  ∀ record entry, memo.get? record = some entry → holds record entry

theorem all_empty : (empty : Memo n α).All holds := by
  intro record entry h
  cases h

def Extends (later memo : Memo n α) : Prop :=
  ∀ record entry, memo.get? record = some entry → later.get? record = some entry

theorem Extends.refl (memo : Memo n α) : memo.Extends memo :=
  fun _ _ h => h

theorem Extends.trans {last later memo : Memo n α} (h : last.Extends later)
    (h' : later.Extends memo) : last.Extends memo :=
  fun record entry hget => h record entry (h' record entry hget)

theorem extends_getOrInsert (memo : Memo n α) (record : RecordId n) (entry : α) :
    (memo.getOrInsert record entry).2.Extends memo := by
  intro other present hget
  rw [get?_getOrInsert]
  by_cases hother : other = record
  · subst hother
    rw [if_pos rfl, hget, Option.getD_some]
  · rw [if_neg hother, hget]

theorem fst_getOrInsert (memo : Memo n α) (record : RecordId n) (entry : α) :
    (memo.getOrInsert record entry).1 = (memo.get? record).getD entry := by
  rw [getOrInsert]
  cases memo.get? record <;> rfl

theorem All.getOrInsert {memo : Memo n α} (h : memo.All holds) {record : RecordId n} {entry : α}
    (hentry : holds record entry) :
    holds record (memo.getOrInsert record entry).1 ∧
      (memo.getOrInsert record entry).2.All holds := by
  have hpresent : holds record ((memo.get? record).getD entry) := by
    cases hget : memo.get? record with
    | none => exact hentry
    | some present => exact h record present hget
  refine ⟨by rwa [fst_getOrInsert], fun other found hfound => ?_⟩
  rw [get?_getOrInsert] at hfound
  by_cases hother : other = record
  · rw [if_pos hother] at hfound
    cases hfound
    rwa [hother]
  · rw [if_neg hother] at hfound
    exact h other found hfound

end Memo

end RecordCodec
