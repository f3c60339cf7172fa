import RecordCodec.Proofs.Layout.Registry

/-!
# Registries in the order of their entries

An entry is made when the schemas that its analysis asked for are entries already, and it stays.  So
the order in which the entries came ranks the records: a schema that reaches no cycle nests only
records that came before its own, whatever the definitions were at the time of each analysis.
-/

namespace RecordCodec

variable {n : Nat}

namespace Memo

variable {α : Type} {memo : Memo n α} {record : RecordId n} {entry : α}

theorem getOrInsert_of_some {present : α} (hget : memo.get? record = some present) :
    (memo.getOrInsert record entry).2 = memo := by
  simp [getOrInsert, hget]

theorem size_getOrInsert_of_none (hget : memo.get? record = none) :
    (memo.getOrInsert record entry).2.size = memo.size + 1 := by
  simp [getOrInsert, hget, size]

end Memo

namespace Registry

variable {registry : Registry n} {rank : RecordId n → Nat}

/-- The registry was empty once, and the entries before it explain every entry that came since. -/
inductive Grown : Registry n → Prop where
  | empty : Grown .empty
  | insert {registry : Registry n} (h : Grown registry) {catalog : Catalog n} {record : RecordId n}
      {outcome : SchemaResult n} (hexplains : registry.Explains catalog record outcome) :
      Grown (registry.getOrInsert record outcome).2

theorem admits_grown (catalog : Catalog n) : Analysis.Admits Grown catalog :=
  fun _ _ _ hregistry hexplains => hregistry.insert hexplains

theorem Grown.coherent (h : registry.Grown) : registry.Coherent fun _ => True := by
  induction h with
  | empty => exact coherent_empty _
  | insert _ hexplains ih => exact admits_coherent trivial _ _ _ ih hexplains

/-- The records that have an entry are ranked below the number of entries, and a schema that reaches
no cycle nests only such records, of a lower rank than its own. -/
structure Ranked (rank : RecordId n → Nat) (registry : Registry n) : Prop where
  lt_size : ∀ record entry, registry.get? record = some entry → rank record < registry.size
  falls : ∀ schema, registry.get? schema.record = some (.ok schema) → schema.cyclic = false →
    ∀ layout ∈ schema.fields, ∀ target, layout.wire = .nested target →
      (∃ entry, registry.get? target = some entry) ∧ rank target < rank schema.record

theorem ranked_empty (rank : RecordId n → Nat) : Ranked rank (.empty : Registry n) where
  lt_size _ _ hget := nomatch hget
  falls _ hget := nomatch hget

/-- A new entry takes the next rank. -/
theorem Ranked.insert (h : registry.Ranked rank) {catalog : Catalog n} {record : RecordId n}
    {outcome : SchemaResult n} (hnew : registry.get? record = none)
    (hexplains : registry.Explains catalog record outcome) :
    Ranked (fun other => if other = record then registry.size else rank other)
      (registry.getOrInsert record outcome).2 := by
  have hget (other : RecordId n) : (registry.getOrInsert record outcome).2.get? other =
      if other = record then some outcome else registry.get? other := by
    rw [Memo.get?_getOrInsert, hnew, Option.getD_none]
  have hold {other : RecordId n} {entry : SchemaResult n}
      (hentry : registry.get? other = some entry) : other ≠ record := by
    rintro rfl
    cases hnew.symm.trans hentry
  constructor
  · intro other entry hentry
    rw [Memo.size_getOrInsert_of_none hnew]
    by_cases hother : other = record
    · simp [hother]
    · simp only [hget, hother, if_false] at hentry ⊢
      exact (h.lt_size other entry hentry).trans (Nat.lt_succ_self _)
  · intro schema hschema hacyclic layout hlayout target hwire
    -- The nested record had an entry before, so it is not the new one and keeps its rank.
    have hbefore : (∃ entry, registry.get? target = some entry) ∧
        rank target < if schema.record = record then registry.size else rank schema.record := by
      by_cases hsame : schema.record = record
      · simp only [hget, hsame, if_true, Option.some.injEq] at hschema ⊢
        subst hschema
        have hfinds := Catalog.finds_of_run_analysis (hexplains registry (.refl registry))
        obtain ⟨inner, hinner⟩ := hfinds.exists_known hacyclic hlayout hwire
        exact ⟨⟨_, hinner⟩, h.lt_size target _ hinner⟩
      · simp only [hget, hsame, if_false] at hschema ⊢
        exact h.falls schema hschema hacyclic layout hlayout target hwire
    obtain ⟨⟨entry, hentry⟩, hlower⟩ := hbefore
    simp only [hget, hold hentry, if_false]
    exact ⟨⟨entry, hentry⟩, hlower⟩

/-- The records can be ranked by the order of their entries. -/
theorem Grown.exists_ranked (h : registry.Grown) : ∃ rank, registry.Ranked rank := by
  induction h with
  | empty => exact ⟨fun _ => 0, ranked_empty _⟩
  | @insert registry _ _ record outcome hexplains ih =>
    obtain ⟨rank, hrank⟩ := ih
    cases hget : registry.get? record with
    | none => exact ⟨_, hrank.insert hget hexplains⟩
    | some present =>
      rw [Memo.getOrInsert_of_some hget]
      exact ⟨rank, hrank⟩

end Registry

end RecordCodec
