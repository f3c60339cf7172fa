import RecordCodec.Proofs.Plan.Compile

/-!
# Plans that add up

If all schemas of a program are entries of one registry, its plans add up, whatever the definitions
were when each of them was analyzed: a record of a fixed size took the widths of its nested records
from entries of the registry, and these are the ones that the program has plans of.
-/

namespace RecordCodec

variable {n : Nat}

/-- Steps as wide as the fields beside them take as many bytes. -/
theorem Program.stepsWidth_of_sumWidths {program : Program} {fields : List (FieldLayout n)}
    {steps : List (Step Nat)} {record : String} {size : Nat}
    (h : List.Forall₂ (fun layout step => program.stepWidth step = layout.width?) fields steps)
    (hsum : sumWidths record fields = .ok size) : program.stepsWidth steps = some size := by
  rw [sumWidths] at hsum
  rw [stepsWidth]
  generalize 0 = before at hsum ⊢
  induction h generalizing before with
  | nil =>
    cases hsum
    rfl
  | @cons layout step fields steps hwidth _ ih =>
    rw [List.foldlM_cons] at hsum ⊢
    rw [hwidth]
    cases hfirst : layout.width? with
    | none =>
      rw [hfirst] at hsum
      cases hsum
    | some width =>
      rw [hfirst] at hsum
      exact ih (wrapCount (before + width)) hsum

namespace Program.Flattens

variable {program : Program} {invariant : Registry n → Prop} {root : Schema n}
variable {found : Array (Schema n)} {registry : Registry n}

/-- A step is as wide as its field was when the record was analyzed, if the record reaches no
cycle. -/
theorem stepWidth_eq (h : program.Flattens invariant root found registry)
    (hheld : ∀ schema ∈ found, registry.get? schema.record = some (.ok schema))
    {catalog : Catalog n} {record : RecordId n} {field : FieldDef n} {layout : FieldLayout n}
    {step : Step Nat} (hacyclic : catalog.isInfinitelyNested record = false)
    (hlays : catalog.LaysOut registry.known record field layout)
    (hmirrors : step.Mirrors found layout) : program.stepWidth step = layout.width? := by
  cases hwire : step.wire with
  | leaf kind =>
    rw [stepWidth, hwire, hlays.width_of_leaf kind (hwire ▸ hmirrors.wire).eq_leaf]
  | nested place =>
    obtain ⟨schema, hschema, htarget⟩ := (hwire ▸ hmirrors.wire).exists_of_nested
    obtain ⟨other, hother, hwidth⟩ :=
      Catalog.exists_known_of_run_nestedWidth hacyclic (hlays.width_of_nested _ htarget)
    have hentry := hheld schema (Array.mem_of_getElem? hschema)
    obtain rfl : schema = other := Except.ok.inj (Option.some.inj (hentry.symm.trans hother))
    rw [stepWidth, hwire]
    exact (h.mirrors hschema).fixedSize_eq.trans hwidth

/-- A program all of whose schemas are entries of one registry passes verification. -/
theorem verify_eq_ok (h : program.Flattens invariant root found registry)
    {allowed : Catalog n → Prop} (hregistry : registry.Coherent allowed)
    (hroot : registry.get? root.record = some (.ok root)) : program.verify = .ok () := by
  have hheld : ∀ schema ∈ found, registry.get? schema.record = some (.ok schema) :=
    fun schema => h.held hroot
  refine Outcome.forM_eq_ok_iff.2 fun plan hplan => ?_
  obtain ⟨schema, hschema, hmirrors⟩ := h.mirrors_of_mem (Array.mem_toList_iff.1 hplan)
  obtain ⟨catalog, -, hfinds⟩ := hregistry.exists_finds (hheld schema hschema)
  rw [verifyPlan_eq_ok_iff, hmirrors.fixedSize_eq]
  intro size hsize
  obtain ⟨hcyclic, hsum⟩ := hfinds.sum_of_fixedSize hsize
  have hlays : ∀ layout ∈ schema.fields, ∃ field,
      catalog.LaysOut registry.known schema.record field layout := fun layout hlayout =>
    let ⟨field, _, hfield⟩ := exists_left_of_forall₂ hfinds.fields hlayout
    ⟨field, hfield⟩
  have hbeside := (List.forall₂_and_left _ _).2 ⟨hlays, hmirrors.steps.flip⟩
  exact stepsWidth_of_sumWidths (hbeside.imp fun _ _ ⟨⟨_, hfield⟩, hstep⟩ =>
    h.stepWidth_eq hheld (hfinds.cyclic_eq.symm.trans hcyclic) hfield hstep) hsum

end Program.Flattens

end RecordCodec
