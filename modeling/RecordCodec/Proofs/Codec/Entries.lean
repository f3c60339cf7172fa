import RecordCodec.Proofs.Codec.Acceptance
import RecordCodec.Proofs.Layout.Footprint
import RecordCodec.Proofs.Layout.Ranks

/-!
# Which records have an entry

A registry that was empty holds what was needed of it, and no more.  To know a record that reaches
no cycle, everything that can be reached from it has to be known.  A cyclic record leaves the nested
records out that reach a cycle, so these and what only they lead to are missing until a program is
compiled.  Whether the requests succeed or fail, no record gets an entry that cannot be reached.
-/

namespace RecordCodec

variable {n : Nat}

/-! ## Tables that hold exactly some records -/

namespace Memo

variable {α : Type} {memo : Memo n α}

/-- The table has an entry for each record of which `p` holds, and no others. -/
structure HoldsExactly (p : RecordId n → Prop) (memo : Memo n α) : Prop where
  entry_iff : ∀ record, (∃ entry, memo.get? record = some entry) ↔ p record
  size_eq : memo.size = {record | p record}.ncard

theorem HoldsExactly.congr {p q : RecordId n → Prop} (h : memo.HoldsExactly p)
    (hiff : ∀ record, p record ↔ q record) : memo.HoldsExactly q :=
  funext (fun record => propext (hiff record)) ▸ h

def Counted (memo : Memo n α) : Prop :=
  memo.size = {record | ∃ entry, memo.get? record = some entry}.ncard

theorem counted_empty : (empty : Memo n α).Counted := by
  simp [Counted, empty, size, get?]

theorem Counted.getOrInsert (h : memo.Counted) (record : RecordId n) (entry : α) :
    (memo.getOrInsert record entry).2.Counted := by
  cases hget : memo.get? record with
  | some present => rwa [getOrInsert_of_some hget]
  | none =>
    have hnew : record ∉ {other | ∃ entry, memo.get? other = some entry} := by simp [hget]
    have hrecords : {other | ∃ found, (memo.getOrInsert record entry).2.get? other = some found} =
        insert record {other | ∃ found, memo.get? other = some found} := by
      ext other
      simp only [get?_getOrInsert, Set.mem_ofPred_eq, Set.mem_insert_iff]
      by_cases heq : other = record <;> simp [heq]
    rw [Counted, size_getOrInsert_of_none hget, hrecords, Set.ncard_insert_of_notMem hnew, ← h]

theorem Counted.holdsExactly {p : RecordId n → Prop} (h : memo.Counted)
    (hentries : ∀ record, (∃ entry, memo.get? record = some entry) ↔ p record) :
    memo.HoldsExactly p where
  entry_iff := hentries
  size_eq := by
    rw [h]
    exact congrArg Set.ncard (Set.ext hentries)

end Memo

namespace Registry

open Analysis

variable {catalog : Catalog n} {registry : Registry n} {record target other : RecordId n}
variable {schema : Schema n} {allowed : RecordId n → Prop}

/-! ## Nothing that is needed is missing -/

/-- The entries are outcomes of analysis by the definitions of `catalog`, each counted once. -/
def Tidy (catalog : Catalog n) (registry : Registry n) : Prop :=
  registry.Faithful catalog ∧ registry.Counted

theorem tidy_empty (catalog : Catalog n) : Tidy catalog Memo.empty :=
  ⟨faithful_empty catalog, Memo.counted_empty⟩

theorem admits_tidy (catalog : Catalog n) : Admits (Tidy catalog) catalog :=
  fun registry record outcome hregistry hexplains =>
    ⟨admits_faithful catalog registry record outcome hregistry.1 hexplains,
      hregistry.2.getOrInsert record outcome⟩

/-- A record with a schema has the records among its nested ones that reach no cycle beside it. -/
theorem Faithful.exists_entry_of_nests (h : registry.Faithful catalog)
    (hget : registry.get? record = some (.ok schema)) (hnests : catalog.Nests record target)
    (hacyclic : ¬ catalog.ReachesCycle target) :
    ∃ inner, registry.get? target = some (.ok inner) := by
  obtain ⟨_, rfl, hfinds⟩ := h.exists_finds hget
  exact hfinds.exists_known_of_nests hnests hacyclic

/-- So it has all that it needs beside it. -/
theorem Faithful.exists_entry_of_needs (h : registry.Faithful catalog)
    (hget : registry.get? record = some (.ok schema)) (hneeds : catalog.Needs record other) :
    ∃ inner, registry.get? other = some (.ok inner) := by
  obtain ⟨target, hnests, hacyclic, hreaches⟩ := hneeds
  induction hreaches with
  | refl => exact h.exists_entry_of_nests hget hnests hacyclic
  | @tail outer inner houter hinner ih =>
    obtain ⟨found, hfound⟩ := ih
    exact h.exists_entry_of_nests hfound hinner
      (mt (.of_reaches (houter.tail hinner)) hacyclic)

/-- A registry that was empty holds a record and what the record needs, once it is known. -/
theorem holdsExactly_of_schema {after : Registry n}
    (hrun : (Registry.schema catalog record).run .empty = (.ok schema, after)) :
    Carries (Tidy catalog) schema after ∧ schema.record = record ∧
      after.HoldsExactly fun other => other = record ∨ catalog.Needs record other := by
  obtain ⟨_, _, hrun', htidy, -, hget⟩ :=
    run_schema (admits_tidy catalog) (tidy_empty catalog) record
  obtain ⟨rfl, rfl⟩ := Prod.mk.inj (hrun'.symm.trans hrun)
  have hrecord : schema.record = record := (htidy.1.sound record _ hget schema rfl).record_eq
  refine ⟨⟨htidy, hrecord ▸ hget⟩, hrecord, htidy.2.holdsExactly fun other => ⟨?_, ?_⟩⟩
  · rintro ⟨entry, hentry⟩
    by_contra hother
    have hsame := get?_of_schema catalog .empty hother
    rw [hrun] at hsame
    cases hsame.symm.trans hentry
  · rintro (rfl | hneeds)
    · exact ⟨_, hget⟩
    · obtain ⟨inner, hinner⟩ := htidy.1.exists_entry_of_needs hget hneeds
      exact ⟨_, hinner⟩

/-! ## Nothing else gets an entry -/

/-- The entries are outcomes of analysis by the definitions of `catalog`, of allowed records. -/
def Confined (catalog : Catalog n) (allowed : RecordId n → Prop) (registry : Registry n) : Prop :=
  registry.Faithful catalog ∧ registry.All fun other _ => allowed other

theorem confined_empty (catalog : Catalog n) (allowed : RecordId n → Prop) :
    Confined catalog allowed Memo.empty :=
  ⟨faithful_empty catalog, Memo.all_empty⟩

def NestAllowed (allowed : RecordId n → Prop) (fields : List (FieldLayout n)) : Prop :=
  ∀ layout ∈ fields, ∀ target, layout.wire = .nested target → allowed target

variable (hclosed : ∀ outer inner, allowed outer → catalog.Nests outer inner → allowed inner)
include hclosed

theorem schema_confined (hrecord : allowed record) :
    Maintains (Confined catalog allowed) (fun schema => NestAllowed allowed schema.fields)
      (ExceptT.mk (Registry.schema catalog record)) := by
  rintro registry ⟨hfaithful, hentries⟩
  obtain ⟨outcome, after, hrun, hafter, -, hget⟩ :=
    run_schema (admits_faithful catalog) hfaithful record
  have hneeded {other : RecordId n} (hother : other = record ∨ catalog.Needs record other) :
      allowed other := by
    rcases hother with rfl | hneeds
    · exact hrecord
    · exact hneeds.allowed_of_closed hclosed hrecord
  have hconfined : after.All fun other _ => allowed other := by
    intro other entry hentry
    by_contra hother
    have hsame := get?_of_schema catalog registry (mt hneeded hother)
    rw [hrun] at hsame
    exact hother (hentries other entry (hsame.symm.trans hentry))
  change (ExceptT.mk (Registry.schema catalog record)).run registry = _ at hrun
  rw [hrun]
  refine ⟨⟨hafter, hconfined⟩, fun schema hok layout hlayout target hwire => ?_⟩
  obtain rfl : outcome = .ok schema := hok
  obtain ⟨_, rfl, hfinds⟩ := hafter.exists_finds hget
  exact hclosed record target hrecord (hfinds.nests_of_layout hlayout hwire)

end Registry

namespace PlanQueue

open Registry

variable {catalog : Catalog n} {allowed : RecordId n → Prop} {queue : PlanQueue n}

/-- The fields of all schemas in the queue nest allowed records only. -/
def Within (allowed : RecordId n → Prop) (queue : PlanQueue n) : Prop :=
  ∀ schema ∈ queue.found, NestAllowed allowed schema.fields

theorem Within.push (h : queue.Within allowed) {schema : Schema n}
    (hschema : NestAllowed allowed schema.fields) :
    Within allowed { queue with found := queue.found.push schema } := by
  intro other hother
  rcases Array.mem_push.1 hother with hfound | rfl
  · exact h other hfound
  · exact hschema

variable (hclosed : ∀ outer inner, allowed outer → catalog.Nests outer inner → allowed inner)
include hclosed

theorem place_confined (hqueue : queue.Within allowed) {target : RecordId n}
    (htarget : allowed target) :
    Maintains (Confined catalog allowed) (fun result => result.2.Within allowed)
      (queue.place catalog target) := by
  rw [place]
  cases queue.found.findIdx? (·.record == target) with
  | some place => exact .pure hqueue
  | none =>
    have hschema := maintains_iff_leads.1 (schema_confined hclosed htarget)
    exact (maintains_iff_leads.2 (hschema.mapError CodecError.schema fun _ _ h => h)).bind
      fun schema hfields => .pure (hqueue.push hfields)

theorem planFields_confined (hqueue : queue.Within allowed) {fields : List (FieldLayout n)}
    (hfields : NestAllowed allowed fields) :
    Maintains (Confined catalog allowed) (fun result => result.2.Within allowed)
      (planFields catalog queue fields) := by
  induction fields generalizing queue with
  | nil => exact .pure hqueue
  | cons field fields ih =>
    have hothers : NestAllowed allowed fields :=
      fun layout hlayout => hfields layout (List.mem_cons_of_mem _ hlayout)
    rw [planFields]
    cases hwire : field.wire with
    | leaf kind => exact (ih hqueue hothers).bind fun result hresult => .pure hresult
    | nested target =>
      have htarget := hfields field List.mem_cons_self target hwire
      exact (place_confined hclosed hqueue htarget).bind fun placed hplaced =>
        (ih hplaced hothers).bind fun result hresult => .pure hresult

theorem drain_confined (rounds : Nat) (hqueue : queue.Within allowed) :
    Maintains (Confined catalog allowed) (Within allowed) (drain catalog rounds queue) := by
  induction rounds generalizing queue with
  | zero => exact .pure hqueue
  | succ rounds ih =>
    rw [drain]
    cases hnext : queue.found[queue.plans.size]? with
    | none => exact .pure hqueue
    | some schema =>
      have hfields := hqueue schema (Array.mem_of_getElem? hnext)
      exact (planFields_confined hclosed hqueue hfields).bind fun result hresult => ih hresult

end PlanQueue

namespace CoreCodec

open Registry

variable {catalog : Catalog n} {root : Schema n}

/-- Generating gives entries only to records that nested records lead to. -/
theorem generate_confined {allowed : RecordId n → Prop}
    (hclosed : ∀ outer inner, allowed outer → catalog.Nests outer inner → allowed inner)
    (hroot : NestAllowed allowed root.fields) (limits : Limits) :
    Maintains (Confined catalog allowed) (fun _ => True) (generate catalog root limits) := by
  have hstart : (PlanQueue.start root).Within allowed := by
    intro schema hschema
    obtain rfl : schema = root := by simpa [PlanQueue.start] using hschema
    exact hroot
  have hverify (queue : PlanQueue n) : Maintains (Confined catalog allowed) (fun _ => True)
      (ExceptT.mk (pure (Program.verify { plans := queue.plans })) : Generation n Unit) :=
    .ofExcept fun _ _ => trivial
  have hcompile : Maintains (Confined catalog allowed) (fun _ => True)
      (Program.compile catalog root) :=
    (PlanQueue.drain_confined hclosed n hstart).bind fun queue _ =>
      (hverify queue).bind fun _ _ => .pure trivial
  exact hcompile.bind fun _ _ => .pure trivial

/-- After generating, every record that can be reached has an entry. -/
theorem exists_entry_of_generate {registry : Registry n} {limits : Limits} {core : CoreCodec n}
    (hregistry : Carries (Tidy catalog) root registry)
    (hok : ((generate catalog root limits).run registry).1 = .ok core) :
    ((generate catalog root limits).run registry).2.Counted ∧
      ∀ other, catalog.Reaches root.record other →
        ∃ entry, ((generate catalog root limits).run registry).2.get? other = some entry := by
  obtain ⟨-, -, -, found, hflattens⟩ := (leads_generate (admits_carries (admits_tidy catalog) root)
    (fun _ h => h.1.1.sound) root limits registry hregistry).1 core hok
  obtain ⟨⟨hfaithful, hcounted⟩, hroot⟩ := hflattens.sound.holds
  have houtcome := outcome_of_carries ⟨hfaithful, hroot⟩ hflattens.sound.held
  refine ⟨hcounted, fun other hreaches => ?_⟩
  obtain ⟨place, rfl⟩ := hflattens.exists_place houtcome hreaches
  exact ⟨_, hflattens.held hroot (Array.getElem_mem _)⟩

end CoreCodec

/-- A registry that was empty holds what was needed of it.  After the schema of a record is found,
these are the records that can be reached from it, if no cycle can; otherwise the record itself and
what can be reached from those of its nested records that reach no cycle.  After generating from the
schema they are all records that can be reached.  Whatever fails, nothing else ever gets an
entry. -/
theorem Registry.holds_what_was_needed {catalog : Catalog n} {record : RecordId n}
    {outcome : SchemaResult n} {registry : Registry n}
    (hrun : (Registry.schema catalog record).run .empty = (outcome, registry)) :
    (registry.All fun other _ => catalog.Reaches record other) ∧
      ∀ root, outcome = .ok root →
        (¬ catalog.ReachesCycle record → registry.HoldsExactly (catalog.Reaches record)) ∧
        (catalog.ReachesCycle record →
          registry.HoldsExactly fun other => other = record ∨ catalog.Needs record other) ∧
        ∀ limits generated after,
          (CoreCodec.generate catalog root limits).run registry = (generated, after) →
            (after.All fun other _ => catalog.Reaches record other) ∧
              ∀ core, generated = .ok core → after.HoldsExactly (catalog.Reaches record) := by
  have hclosed (outer inner : RecordId n) (houter : catalog.Reaches record outer)
      (hinner : catalog.Nests outer inner) : catalog.Reaches record inner := houter.tail hinner
  have hself : catalog.Reaches record record := .refl
  obtain ⟨hconfined, hfields⟩ := schema_confined hclosed hself .empty (confined_empty catalog _)
  change Confined catalog _ ((Registry.schema catalog record).run .empty).2 at hconfined
  change ∀ root, ((Registry.schema catalog record).run .empty).1 = .ok root → _ at hfields
  rw [hrun] at hconfined hfields
  refine ⟨hconfined.2, ?_⟩
  rintro root rfl
  obtain ⟨hcarries, hrecord, hexactly⟩ := holdsExactly_of_schema hrun
  refine ⟨fun hacyclic => hexactly.congr fun _ => Catalog.eq_or_needs_iff hacyclic,
    fun _ => hexactly, fun limits generated after hgenerate => ?_⟩
  obtain ⟨hafter, -⟩ := CoreCodec.generate_confined hclosed (hfields root rfl) limits _ hconfined
  rw [hgenerate] at hafter
  refine ⟨hafter.2, ?_⟩
  rintro core rfl
  obtain ⟨hcounted, hentries⟩ :=
    CoreCodec.exists_entry_of_generate hcarries (congrArg Prod.fst hgenerate)
  rw [hgenerate] at hcounted hentries
  exact hcounted.holdsExactly fun other =>
    ⟨fun ⟨entry, hentry⟩ => hafter.2 other entry hentry,
      fun hreaches => hentries other (hrecord ▸ hreaches)⟩

namespace Sample

/-- A pair and its back make a cycle, so the pair has an entry beside its tag before a program is
compiled, and the back only afterwards.  Notes never have one. -/
theorem mesh_entries :
    (((Registry.schema meshCatalog 0).run .empty).2.HoldsExactly
        (fun other => other = 0 ∨ meshCatalog.Needs 0 other) ∧
      ((Registry.schema meshCatalog 0).run .empty).2.size = 2) ∧
      ((CoreCodec.generate meshCatalog meshSchema .standard).run
        ((Registry.schema meshCatalog 0).run .empty).2).2.HoldsExactly (meshCatalog.Reaches 0) ∧
      ((CoreCodec.generate meshCatalog meshSchema .standard).run
        ((Registry.schema meshCatalog 0).run .empty).2).2.size = 3 := by
  have hrun : (Registry.schema meshCatalog 0).run .empty =
      (.ok meshSchema, ((Registry.schema meshCatalog 0).run .empty).2) := rfl
  have hcyclic : meshCatalog.ReachesCycle 0 := Catalog.isInfinitelyNested_iff.1 (by decide)
  have hgenerate : ((CoreCodec.generate meshCatalog meshSchema .standard).run
      ((Registry.schema meshCatalog 0).run .empty).2).1 = .ok meshCore := by with_unfolding_all rfl
  obtain ⟨-, hschema⟩ := Registry.holds_what_was_needed hrun
  obtain ⟨-, hneeded, hcompiled⟩ := hschema meshSchema rfl
  refine ⟨⟨hneeded hcyclic, rfl⟩, (hcompiled .standard _ _ rfl).2 meshCore hgenerate, ?_⟩
  with_unfolding_all rfl

end Sample

end RecordCodec
