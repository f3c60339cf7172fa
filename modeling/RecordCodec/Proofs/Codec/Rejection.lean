import RecordCodec.Proofs.Codec.Transparency

/-!
# Records that are rejected

A record is accepted if every field of it, and of every record that can be reached from it, is
allowed.  Analysis looks at the fields of a record and asks for the schemas of nested records that
reach no cycle.  So when it fails, some field is not allowed; and when it succeeds for a record that
reaches no cycle, the record is accepted.
-/

namespace RecordCodec

variable {n : Nat}

/-! ## What is rejected -/

def SchemaError.record : SchemaError → String
  | noFixedWidth record _ _ | boolNotPermitted record _ | tooManyVariants record _ _
  | invalidOverride record _ _ _ => record

def SchemaError.field : SchemaError → String
  | noFixedWidth _ field _ | boolNotPermitted _ field | tooManyVariants _ field _
  | invalidOverride _ field _ _ => field

/-- A field that is not allowed is named in the error, with its record. -/
theorem FieldDef.names_of_wire {record : String} {field : FieldDef n} {fault : SchemaError}
    (h : field.wire record = .error fault) : fault.record = record ∧ fault.field = field.name := by
  rw [FieldDef.wire] at h
  split at h
  case h_13 =>
    split at h <;> cases h
    exact ⟨rfl, rfl⟩
  all_goals
    cases h
    try exact ⟨rfl, rfl⟩

namespace Catalog

/-- Every field of `record`, and of every record that it reaches, is allowed. -/
def Accepts (catalog : Catalog n) (record : RecordId n) : Prop :=
  ∀ inner, catalog.Reaches record inner → ∀ field ∈ (catalog inner).fields,
    ∃ wire, field.wire (catalog inner).name = .ok wire

/-- A field of `record`, or of a record that it reaches, is not allowed, which is the fault. -/
def Rejects (catalog : Catalog n) (record : RecordId n) (fault : SchemaError) : Prop :=
  ∃ inner, catalog.Reaches record inner ∧ ∃ field ∈ (catalog inner).fields,
    field.wire (catalog inner).name = .error fault

variable {catalog : Catalog n} {record inner : RecordId n} {fault : SchemaError}

theorem Rejects.not_accepts (h : catalog.Rejects record fault) : ¬ catalog.Accepts record := by
  intro haccepts
  obtain ⟨inner, hinner, field, hfield, herror⟩ := h
  obtain ⟨wire, hwire⟩ := haccepts inner hinner field hfield
  cases hwire.symm.trans herror

theorem Accepts.of_reaches (hreaches : catalog.Reaches record inner)
    (h : catalog.Accepts record) : catalog.Accepts inner :=
  fun last hlast => h last (hreaches.trans hlast)

theorem Rejects.of_reaches (hreaches : catalog.Reaches record inner)
    (h : catalog.Rejects inner fault) : catalog.Rejects record fault := by
  obtain ⟨last, hlast, hfield⟩ := h
  exact ⟨last, hreaches.trans hlast, hfield⟩

/-! ## Why analysis fails -/

section Failure

variable {known : RecordId n → ExceptT SchemaError Option (Schema n)}

/-- A nested record that reaches a cycle is not asked for. -/
theorem known_of_run_nestedWidth_eq_error {target : RecordId n}
    (hnests : catalog.Nests record target)
    (h : (catalog.nestedWidth known record target).run = some (.error fault)) :
    ¬ catalog.ReachesCycle target ∧ (known target).run = some (.error fault) := by
  rw [nestedWidth] at h
  split at h
  · cases h
  · rename_i hasked
    refine ⟨fun hcycle => hasked ?_, ?_⟩
    · rw [isInfinitelyNested_iff.2 (hcycle.of_nests hnests), isInfinitelyNested_iff.2 hcycle,
        Bool.and_self]
    · rcases Outcome.run_bind_eq_error_iff.1 h with hknown | ⟨_, -, hpure⟩
      · exact hknown
      · cases hpure

/-- Analysis fails at a field that is not allowed, or at a nested record without a schema. -/
theorem fault_of_run_analysis (h : (catalog.analysis known record).run = some (.error fault)) :
    (∃ field ∈ (catalog record).fields, field.wire (catalog record).name = .error fault) ∨
      ∃ target, catalog.Nests record target ∧ ¬ catalog.ReachesCycle target ∧
        (known target).run = some (.error fault) := by
  rcases Outcome.run_bind_eq_error_iff.1 h with hfields | ⟨_, -, hpure⟩
  · obtain ⟨field, hfield, herror⟩ := Outcome.exists_of_run_mapM_eq_error hfields
    cases hwire : field.wire (catalog record).name with
    | error error =>
      rw [fieldLayout_of_error hwire] at herror
      cases herror
      exact .inl ⟨field, hfield, hwire⟩
    | ok wire =>
      cases wire with
      | leaf kind =>
        rw [fieldLayout_of_leaf hwire] at herror
        cases herror
      | nested target =>
        have hnests := nests_of_wire hfield hwire
        rw [fieldLayout_of_nested hwire] at herror
        rcases Outcome.run_bind_eq_error_iff.1 herror with hwidth | ⟨_, -, hpure⟩
        · exact .inr ⟨target, hnests, known_of_run_nestedWidth_eq_error hnests hwidth⟩
        · cases hpure
  · cases hpure

end Failure

/-- A fault of `record` itself, or of a nested record that reaches no cycle and has an entry. -/
theorem rejects_of_explains {registry : Registry n} (hregistry : registry.Faithful catalog)
    (hexplains : registry.Explains catalog record (.error fault)) :
    catalog.Rejects record fault := by
  have hentry {target : RecordId n} (hacyclic : ¬ catalog.ReachesCycle target) :
      registry.get? target = some (.error fault) → catalog.Rejects target fault := by
    refine acyclic_induction (motive := fun target =>
      registry.get? target = some (.error fault) → catalog.Rejects target fault) ?_ hacyclic
    intro target _ ih hget
    obtain ⟨_, rfl, htarget⟩ := hregistry target _ hget
    rcases fault_of_run_analysis (htarget registry (.refl registry)) with
      hown | ⟨inner, hnests, -, hinner⟩
    · exact ⟨target, .refl, hown⟩
    · exact (ih inner hnests hinner).of_reaches (.single hnests)
  rcases fault_of_run_analysis (hexplains registry (.refl registry)) with
    hown | ⟨inner, hnests, hacyclic, hinner⟩
  · exact ⟨record, .refl, hown⟩
  · exact (hentry hacyclic hinner).of_reaches (.single hnests)

/-- If analysis fails, a field is not allowed, of the record or of one that it reaches. -/
theorem rejects_of_outcome (h : catalog.outcome record = .error fault) :
    catalog.Rejects record fault := by
  obtain ⟨fresh, after, hrun, hafter, -, hfresh⟩ :=
    Registry.run_analyze (Registry.admits_faithful catalog) (Registry.faithful_empty catalog) record
  obtain rfl : fresh = .error fault := (congrArg Prod.fst hrun).symm.trans h
  exact rejects_of_explains hafter hfresh

theorem Accepts.exists_outcome (h : catalog.Accepts record) :
    ∃ schema, catalog.outcome record = .ok schema := by
  cases houtcome : catalog.outcome record with
  | ok schema => exact ⟨schema, rfl⟩
  | error fault => exact absurd h (rejects_of_outcome houtcome).not_accepts

/-- If analysis succeeds, and the record reaches no cycle, all fields are allowed that can be
reached. -/
theorem accepts_of_outcome {schema : Schema n} (hacyclic : ¬ catalog.ReachesCycle record)
    (h : catalog.outcome record = .ok schema) : catalog.Accepts record := by
  suffices hmotive : ∀ schema, catalog.outcome record = .ok schema → catalog.Accepts record from
    hmotive schema h
  refine acyclic_induction (motive := fun record =>
    ∀ schema, catalog.outcome record = .ok schema → catalog.Accepts record) ?_ hacyclic
  intro record hacyclic ih schema h inner hreaches
  obtain ⟨registry, hregistry, hfinds⟩ := finds_of_outcome h
  rcases hreaches.cases_head with rfl | ⟨next, hnests, hinner⟩
  · intro field hfield
    obtain ⟨layout, -, hlays⟩ := exists_right_of_forall₂ hfinds.fields hfield
    exact ⟨layout.wire, hlays.wire_eq⟩
  · obtain ⟨layout, hlayout, hwire⟩ := hfinds.exists_layout_of_nests hnests
    have hflag : schema.cyclic = false := by
      rw [hfinds.cyclic_eq]
      exact isInfinitelyNested_eq_false_iff.2 hacyclic
    obtain ⟨other, hother⟩ := hfinds.exists_known hflag hlayout hwire
    have houtcome := Registry.Faithful.get?_eq_outcome hregistry hother
    exact ih next hnests other houtcome.symm inner hinner

end Catalog

end RecordCodec
