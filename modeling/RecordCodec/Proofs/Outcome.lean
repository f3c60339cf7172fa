import Mathlib.Data.List.Forall2
import Mathlib.Data.Nat.Find
import Mathlib.Tactic.Common

/-!
# Outcomes

A composed computation succeeds exactly if each of its parts does, and a computation on each item of
a list gives a list of outcomes side by side with the items.
-/

namespace RecordCodec

namespace Outcome

variable {ε α β : Type}

theorem bind_eq_ok_iff {first : Except ε α} {next : α → Except ε β} {value : β} :
    (first >>= next) = .ok value ↔ ∃ inner, first = .ok inner ∧ next inner = .ok value := by
  cases first with
  | error error =>
    constructor
    · intro h
      cases h
    · rintro ⟨_, h, _⟩
      cases h
  | ok inner =>
    constructor
    · intro h
      exact ⟨inner, rfl, h⟩
    · rintro ⟨_, hinner, hnext⟩
      cases hinner
      exact hnext

theorem bind_eq_error_iff {first : Except ε α} {next : α → Except ε β} {error : ε} :
    (first >>= next) = .error error ↔
      first = .error error ∨ ∃ inner, first = .ok inner ∧ next inner = .error error := by
  cases first with
  | error other =>
    constructor
    · intro h
      cases h
      exact .inl rfl
    · rintro (h | ⟨_, h, _⟩)
      · cases h
        rfl
      · cases h
  | ok inner =>
    constructor
    · intro h
      exact .inr ⟨inner, rfl, h⟩
    · rintro (h | ⟨_, hinner, hnext⟩)
      · cases h
      · cases hinner
        exact hnext

theorem forM_eq_ok_iff {check : α → Except ε Unit} {items : List α} :
    items.forM check = .ok () ↔ ∀ item ∈ items, check item = .ok () := by
  induction items with
  | nil => simp [List.forM, pure, Except.pure]
  | cons first rest ih =>
    change (check first >>= fun _ => rest.forM check) = .ok () ↔ _
    rw [bind_eq_ok_iff, List.forall_mem_cons]
    constructor
    · rintro ⟨_, hfirst, hrest⟩
      exact ⟨hfirst, ih.1 hrest⟩
    · rintro ⟨hfirst, hrest⟩
      exact ⟨(), hfirst, ih.2 hrest⟩

/-- Either all items pass, or one of them is the first that does not. -/
theorem forall_or_exists_first (p : α → Prop) (items : List α) :
    (∀ item ∈ items, p item) ∨
      ∃ (index : Nat) (item : α), items[index]? = some item ∧ ¬ p item ∧
        ∀ earlier < index, ∀ other, items[earlier]? = some other → p other := by
  classical
  by_cases hfails : ∃ (index : Nat) (item : α), items[index]? = some item ∧ ¬ p item
  · obtain ⟨item, hitem, hfail⟩ := Nat.find_spec hfails
    refine .inr ⟨Nat.find hfails, item, hitem, hfail, fun earlier hearlier other hother => ?_⟩
    by_contra hfail'
    exact Nat.find_min hfails hearlier ⟨other, hother, hfail'⟩
  · refine .inl fun item hmem => ?_
    obtain ⟨index, hitem⟩ := List.mem_iff_getElem?.1 hmem
    by_contra hfail
    exact hfails ⟨index, item, hitem, hfail⟩

/-! ## Outcomes that may be missing -/

section Missing

variable {first : ExceptT ε Option α} {next : α → ExceptT ε Option β} {value : β}

theorem run_bind_eq_ok_iff :
    (first >>= next).run = some (.ok value) ↔
      ∃ inner, first.run = some (.ok inner) ∧ (next inner).run = some (.ok value) := by
  change first.run.bind (ExceptT.bindCont next) = _ ↔ _
  constructor
  · intro h
    obtain ⟨outcome, houtcome, hnext⟩ := Option.bind_eq_some_iff.1 h
    cases outcome with
    | error error => cases hnext
    | ok inner => exact ⟨inner, houtcome, hnext⟩
  · rintro ⟨inner, hinner, hnext⟩
    exact Option.bind_eq_some_iff.2 ⟨.ok inner, hinner, hnext⟩

theorem run_bind_eq_error_iff {error : ε} :
    (first >>= next).run = some (.error error) ↔
      first.run = some (.error error) ∨
        ∃ inner, first.run = some (.ok inner) ∧ (next inner).run = some (.error error) := by
  change first.run.bind (ExceptT.bindCont next) = _ ↔ _
  cases first.run with
  | none => simp
  | some outcome =>
    cases outcome with
    | error other =>
      change some (Except.error other) = some (.error error) ↔ _
      simp
    | ok inner =>
      change (next inner).run = _ ↔ _
      simp

/-- The error of a computation on a list is that of the computation on an item. -/
theorem exists_of_run_mapM_eq_error {f : α → ExceptT ε Option β} {items : List α} {error : ε}
    (h : (items.mapM f).run = some (.error error)) :
    ∃ item ∈ items, (f item).run = some (.error error) := by
  induction items with
  | nil =>
    rw [List.mapM_nil] at h
    cases h
  | cons item items ih =>
    rw [List.mapM_cons, run_bind_eq_error_iff] at h
    rcases h with hfirst | ⟨_, -, hnext⟩
    · exact ⟨item, List.mem_cons_self, hfirst⟩
    · rcases run_bind_eq_error_iff.1 hnext with hothers | ⟨_, -, hpure⟩
      · obtain ⟨other, hother, herror⟩ := ih hothers
        exact ⟨other, List.mem_cons_of_mem _ hother, herror⟩
      · cases hpure

theorem run_mapM_eq_ok_iff {f : α → ExceptT ε Option β} {items : List α} {values : List β} :
    (items.mapM f).run = some (.ok values) ↔
      List.Forall₂ (fun item value => (f item).run = some (.ok value)) items values := by
  induction items generalizing values with
  | nil =>
    rw [List.mapM_nil, List.forall₂_nil_left_iff]
    constructor
    · intro h
      cases h
      rfl
    · rintro rfl
      rfl
  | cons item items ih =>
    rw [List.mapM_cons, run_bind_eq_ok_iff, List.forall₂_cons_left_iff]
    constructor
    · rintro ⟨value, hvalue, hnext⟩
      obtain ⟨others, hothers, hpure⟩ := run_bind_eq_ok_iff.1 hnext
      cases hpure
      exact ⟨value, others, hvalue, ih.1 hothers, rfl⟩
    · rintro ⟨value, others, hvalue, hothers, rfl⟩
      exact ⟨value, hvalue, run_bind_eq_ok_iff.2 ⟨others, ih.2 hothers, rfl⟩⟩

end Missing

end Outcome

/-! ## Lists side by side -/

section SideBySide

variable {α β : Type} {related : α → β → Prop} {lefts : List α} {rights : List β}

theorem exists_left_of_forall₂ (h : List.Forall₂ related lefts rights) {right : β}
    (hmem : right ∈ rights) : ∃ left ∈ lefts, related left right := by
  induction h with
  | nil => cases hmem
  | cons hfirst _ ih =>
    rcases List.mem_cons.1 hmem with rfl | hmem
    · exact ⟨_, List.mem_cons_self, hfirst⟩
    · obtain ⟨left, hleft, hrelated⟩ := ih hmem
      exact ⟨left, List.mem_cons_of_mem _ hleft, hrelated⟩

theorem exists_right_of_forall₂ (h : List.Forall₂ related lefts rights) {left : α}
    (hmem : left ∈ lefts) : ∃ right ∈ rights, related left right :=
  exists_left_of_forall₂ h.flip hmem

theorem forall₂_comp {γ : Type} {thirds : List γ} {related' : γ → β → Prop} {result : α → γ → Prop}
    (h : List.Forall₂ related lefts rights) (h' : List.Forall₂ related' thirds rights)
    (hresult : ∀ left right third, related left right → related' third right → result left third) :
    List.Forall₂ result lefts thirds := by
  induction h generalizing thirds with
  | nil =>
    cases h'
    exact .nil
  | cons hfirst _ ih =>
    cases h' with
    | cons hfirst' hrest' => exact .cons (hresult _ _ _ hfirst hfirst') (ih hrest')

theorem map_eq_map_iff {γ : Type} {f : α → γ} {g : β → γ} :
    lefts.map f = rights.map g ↔
      List.Forall₂ (fun left right => f left = g right) lefts rights := by
  rw [← List.forall₂_eq_eq_eq, List.forall₂_map_left_iff, List.forall₂_map_right_iff]

/-- Computations that are the same for lists side by side. -/
theorem mapM_congr_forall₂ {m : Type → Type} [Monad m] [LawfulMonad m] {γ : Type} {f : α → m γ}
    {g : β → m γ} (h : List.Forall₂ (fun left right => f left = g right) lefts rights) :
    lefts.mapM f = rights.mapM g := by
  induction h with
  | nil => simp
  | cons hfirst _ ih => simp [hfirst, ih]

end SideBySide

end RecordCodec
