import RecordCodec.Plan.Compile
import RecordCodec.Proofs.Layout.Registry
import Mathlib.Data.Fintype.Card
import Mathlib.Logic.Relation

/-!
# Compiled programs

A compiled program lays out the schemas that were found on the way, each at its place: the plan
there says of every field what the schema says, and where the field nests a record it names the
place of that record's schema.  Every record in the queue was reached from the root, and none is
there twice, so the queue never holds more than the family has, and as many rounds plan them all.
Apart from a record without a schema, only a plan that does not add up makes compiling fail.
-/

namespace RecordCodec

variable {n : Nat}

/-! ## Plans beside schemas -/

/-- Both are the same leaf, or a place and the record whose schema was found there. -/
inductive Wire.Mirrors (found : Array (Schema n)) : Wire Nat → Wire (RecordId n) → Prop
  | leaf (kind : Leaf) : Wire.Mirrors found (.leaf kind) (.leaf kind)
  | nested {place : Nat} {schema : Schema n} (hfound : found[place]? = some schema) :
      Wire.Mirrors found (.nested place) (.nested schema.record)

theorem Wire.Mirrors.eq_leaf {found : Array (Schema n)} {kind : Leaf} {wire : Wire (RecordId n)}
    (h : (Wire.leaf kind).Mirrors found wire) : wire = .leaf kind := by
  cases h
  rfl

theorem Wire.Mirrors.exists_of_nested {found : Array (Schema n)} {place : Nat}
    {wire : Wire (RecordId n)} (h : (Wire.nested place).Mirrors found wire) :
    ∃ schema, found[place]? = some schema ∧ wire = .nested schema.record := by
  cases h with
  | nested hfound => exact ⟨_, hfound, rfl⟩

theorem Wire.Mirrors.exists_of_target {found : Array (Schema n)} {target : RecordId n}
    {wire : Wire Nat} (h : wire.Mirrors found (.nested target)) :
    ∃ place schema, found[place]? = some schema ∧ schema.record = target ∧
      wire = .nested place := by
  cases h with
  | nested hfound => exact ⟨_, _, hfound, rfl, rfl⟩

structure Step.Mirrors (found : Array (Schema n)) (step : Step Nat) (layout : FieldLayout n) :
    Prop where
  field_eq : step.field = layout.name
  wire : step.wire.Mirrors found layout.wire

/-- The plan says of the record what its schema says. -/
structure Plan.Mirrors (found : Array (Schema n)) (plan : Plan Nat) (schema : Schema n) :
    Prop where
  name_eq : plan.name = schema.name
  fixedSize_eq : plan.fixedSize = schema.fixedSize
  cyclic_eq : plan.cyclic = schema.cyclic
  steps : List.Forall₂ (Step.Mirrors found) plan.steps schema.fields

theorem Plan.Mirrors.exists_step_of_nested {found : Array (Schema n)} {plan : Plan Nat}
    {schema : Schema n} {layout : FieldLayout n} {target : RecordId n}
    (h : plan.Mirrors found schema) (hlayout : layout ∈ schema.fields)
    (hwire : layout.wire = .nested target) :
    ∃ step ∈ plan.steps, ∃ place other, found[place]? = some other ∧ other.record = target ∧
      step.wire = .nested place := by
  obtain ⟨step, hstep, hmirrors⟩ := exists_left_of_forall₂ h.steps hlayout
  exact ⟨step, hstep, (hwire ▸ hmirrors.wire).exists_of_target⟩

def FoundIn (later found : Array (Schema n)) : Prop :=
  ∀ (place : Nat) (schema : Schema n), found[place]? = some schema → later[place]? = some schema

section Mono

variable {found later : Array (Schema n)}

theorem Step.Mirrors.mono {step : Step Nat} {layout : FieldLayout n}
    (h : step.Mirrors found layout) (hlater : FoundIn later found) : step.Mirrors later layout := by
  refine ⟨h.field_eq, ?_⟩
  have hwire := h.wire
  generalize step.wire = wire at hwire ⊢
  generalize layout.wire = other at hwire ⊢
  cases hwire with
  | leaf kind => exact .leaf kind
  | nested hfound => exact .nested (hlater _ _ hfound)

theorem Plan.Mirrors.mono {plan : Plan Nat} {schema : Schema n}
    (h : plan.Mirrors found schema) (hlater : FoundIn later found) : plan.Mirrors later schema where
  name_eq := h.name_eq
  fixedSize_eq := h.fixedSize_eq
  cyclic_eq := h.cyclic_eq
  steps := h.steps.imp fun _ _ hstep => hstep.mono hlater

theorem foundIn_push (found : Array (Schema n)) (schema : Schema n) :
    FoundIn (found.push schema) found := by
  intro place other hother
  obtain ⟨hlt, -⟩ := Array.getElem?_eq_some_iff.1 hother
  rw [Array.getElem?_push_lt hlt, ← hother, Array.getElem?_eq_getElem hlt]

end Mono

/-! ## The queue -/

namespace PlanQueue

variable {invariant : Registry n → Prop} {catalog : Catalog n} {root : Schema n}
variable {queue later : PlanQueue n} {registry after : Registry n}

def records (queue : PlanQueue n) : List (RecordId n) :=
  queue.found.toList.map (·.record)

/-- A schema among `found` nests `inner` in `outer`. -/
def Links (found : Array (Schema n)) (outer inner : RecordId n) : Prop :=
  ∃ schema ∈ found, schema.record = outer ∧
    ∃ layout ∈ schema.fields, layout.wire = .nested inner

/-- Going from schema to schema of the queue, one comes from `root` to `record`. -/
def Reaches (queue : PlanQueue n) (root : Schema n) (record : RecordId n) : Prop :=
  Relation.ReflTransGen (Links queue.found) root.record record

/-- The registry satisfies `invariant`; the queue started from `root`, all other schemas in it are
entries of the registry and were reached from there, no record is found twice, and the plans are
those of the first schemas. -/
structure Sound (invariant : Registry n → Prop) (root : Schema n) (queue : PlanQueue n)
    (registry : Registry n) : Prop where
  holds : invariant registry
  first : queue.found[0]? = some root
  nodup : queue.records.Nodup
  held : ∀ schema ∈ queue.found, schema = root ∨ registry.get? schema.record = some (.ok schema)
  reached : ∀ schema ∈ queue.found, queue.Reaches root schema.record
  planned : ∀ (place : Nat) (plan : Plan Nat), queue.plans[place]? = some plan →
    ∃ schema, queue.found[place]? = some schema ∧ plan.Mirrors queue.found schema

/-- The queue with perhaps more schemas found, and no more planned. -/
structure Extends (later queue : PlanQueue n) : Prop where
  found : FoundIn later.found queue.found
  plans_eq : later.plans = queue.plans

theorem Extends.refl (queue : PlanQueue n) : queue.Extends queue :=
  ⟨fun _ _ h => h, rfl⟩

theorem Extends.trans {last : PlanQueue n} (h : later.Extends queue) (h' : last.Extends later) :
    last.Extends queue where
  found place schema hfound := h'.found place schema (h.found place schema hfound)
  plans_eq := h'.plans_eq.trans h.plans_eq

theorem reaches_of_foundIn (h : FoundIn later.found queue.found) {record : RecordId n}
    (hreaches : queue.Reaches root record) : later.Reaches root record := by
  have hlinks : Links queue.found ≤ Links later.found := by
    rintro outer inner ⟨schema, hschema, hnests⟩
    obtain ⟨place, hplace⟩ := Array.mem_iff_getElem?.1 hschema
    exact ⟨schema, Array.mem_of_getElem? (h place schema hplace), hnests⟩
  exact Relation.ReflTransGen.mono hlinks _ _ hreaches

/-- What a schema of the queue nests is reached as well. -/
theorem Sound.reaches_of_nested (h : queue.Sound invariant root registry) {schema : Schema n}
    (hschema : schema ∈ queue.found) {layout : FieldLayout n} (hlayout : layout ∈ schema.fields)
    {target : RecordId n} (hwire : layout.wire = .nested target) : queue.Reaches root target :=
  (h.reached schema hschema).tail ⟨schema, hschema, rfl, layout, hlayout, hwire⟩

theorem Sound.found_le (h : queue.Sound invariant root registry) : queue.found.size ≤ n := by
  calc queue.found.size = queue.records.length := by
        rw [records, List.length_map, Array.length_toList]
    _ ≤ Fintype.card (RecordId n) := h.nodup.length_le_card
    _ = n := Fintype.card_fin n

theorem Sound.plans_le (h : queue.Sound invariant root registry) :
    queue.plans.size ≤ queue.found.size := by
  by_contra hlt
  rw [Nat.not_le] at hlt
  obtain ⟨schema, hschema, -⟩ := h.planned _ _ (Array.getElem?_eq_getElem hlt)
  rw [Array.getElem?_eq_none (Nat.le_refl _)] at hschema
  cases hschema

theorem sound_start (hregistry : invariant registry) (root : Schema n) :
    (start root).Sound invariant root registry where
  holds := hregistry
  first := rfl
  nodup := List.nodup_singleton _
  held schema hschema := .inl (by simpa [start] using hschema)
  reached schema hschema := by
    obtain rfl : schema = root := by simpa [start] using hschema
    exact .refl
  planned place plan hplan := by simp [start] at hplan

/-- What the registry learns does not matter for the queue. -/
theorem Sound.of_extends (h : queue.Sound invariant root registry) (hregistry : invariant after)
    (hafter : after.Extends registry) : queue.Sound invariant root after where
  holds := hregistry
  first := h.first
  nodup := h.nodup
  held schema hschema := (h.held schema hschema).imp_right (hafter _ _)
  reached := h.reached
  planned := h.planned

/-- An entry of the registry whose record was reached but not found before joins the queue at its
end. -/
theorem Sound.push (h : queue.Sound invariant root registry) {schema : Schema n}
    (hnew : schema.record ∉ queue.records) (hreached : queue.Reaches root schema.record)
    (hheld : registry.get? schema.record = some (.ok schema)) :
    Sound invariant root { queue with found := queue.found.push schema } registry where
  holds := h.holds
  first := foundIn_push _ _ _ _ h.first
  nodup := by
    rw [records, Array.toList_push, List.map_append, List.map_singleton]
    exact h.nodup.append (List.nodup_singleton _) (by simpa [records] using hnew)
  held other hother := by
    rcases Array.mem_push.1 hother with hfound | rfl
    · exact h.held other hfound
    · exact .inr hheld
  reached other hother := by
    apply reaches_of_foundIn (foundIn_push _ _)
    rcases Array.mem_push.1 hother with hfound | rfl
    · exact h.reached other hfound
    · exact hreached
  planned place plan hplan := by
    obtain ⟨schema', hschema, hmirrors⟩ := h.planned place plan hplan
    exact ⟨schema', foundIn_push _ _ _ _ hschema, hmirrors.mono (foundIn_push _ _)⟩

/-- The plan of the next schema joins the plans. -/
theorem Sound.push_plan (h : later.Sound invariant root registry) (hextends : later.Extends queue)
    {schema : Schema n} (hnext : queue.found[queue.plans.size]? = some schema) {plan : Plan Nat}
    (hplan : plan.Mirrors later.found schema) :
    Sound invariant root { later with plans := later.plans.push plan } registry where
  holds := h.holds
  first := h.first
  nodup := h.nodup
  held := h.held
  reached := h.reached
  planned place other hother := by
    rw [Array.getElem?_push] at hother
    by_cases hplace : place = later.plans.size
    · rw [if_pos hplace] at hother
      cases hother
      rw [hplace, hextends.plans_eq]
      exact ⟨schema, hextends.found _ _ hnext, hplan⟩
    · rw [if_neg hplace] at hother
      exact h.planned place other hother

/-! ## Rounds -/

/-- Once all schemas are planned, nothing is left to do. -/
theorem drain_of_getElem?_eq_none (hnext : queue.found[queue.plans.size]? = none) (rounds : Nat) :
    drain catalog rounds queue = pure queue := by
  cases rounds with
  | zero => rfl
  | succ rounds => rw [drain, hnext]

theorem drain_add (rounds more : Nat) (queue : PlanQueue n) :
    drain catalog (rounds + more) queue = drain catalog rounds queue >>= drain catalog more := by
  induction rounds generalizing queue with
  | zero => rw [Nat.zero_add, drain, pure_bind]
  | succ rounds ih =>
    rw [Nat.succ_add, drain, drain]
    cases hnext : queue.found[queue.plans.size]? with
    | none => rw [pure_bind, drain_of_getElem?_eq_none hnext]
    | some schema => simp only [ih, bind_assoc]

/-! ## Compiling -/

/-- The error is that of a record without a schema, which was reached from the root. -/
def Unanalyzed (invariant : Registry n → Prop) (root : Schema n) (error : CodecError)
    (registry : Registry n) : Prop :=
  ∃ (queue : PlanQueue n) (target : RecordId n) (fault : SchemaError),
    queue.Sound invariant root registry ∧ queue.Reaches root target ∧
      registry.get? target = some (.error fault) ∧ error = .schema fault

section Compiling

variable (hadmits : Analysis.Admits invariant catalog)
variable (hsound : ∀ registry, invariant registry → registry.Sound)
include hadmits hsound

/-- A record that is reached is given the place of its schema in the queue, which it joins if it was
not found before. -/
theorem leads_place {target : RecordId n} (hreached : queue.Reaches root target) :
    Leads (queue.Sound invariant root)
      (fun result registry => (result.2.Extends queue ∧
        Wire.Mirrors result.2.found (.nested result.1) (.nested target)) ∧
          result.2.Sound invariant root registry)
      (Unanalyzed invariant root) (queue.place catalog target) := by
  rw [place]
  cases hfind : queue.found.findIdx? (·.record == target) with
  | some place =>
    obtain ⟨hlt, hrecord, -⟩ := Array.findIdx?_eq_some_iff_getElem.1 hfind
    obtain rfl := beq_iff_eq.1 hrecord
    exact .pure fun registry hqueue =>
      ⟨⟨.refl queue, .nested (Array.getElem?_eq_getElem hlt)⟩, hqueue⟩
  | none =>
    have hschema : Leads (queue.Sound invariant root)
        (fun schema after => schema.record = target ∧
          Sound invariant root { queue with found := queue.found.push schema } after)
        (fun fault after => queue.Sound invariant root after ∧
          after.get? target = some (.error fault))
        (ExceptT.mk (Registry.schema catalog target)) := by
      intro registry hqueue
      obtain ⟨outcome, after, hrun, hafter, hextends, hget⟩ :=
        Registry.run_schema hadmits hqueue.holds target
      have hlater := hqueue.of_extends hafter hextends
      change (ExceptT.mk (Registry.schema catalog target)).run registry = _ at hrun
      rw [hrun]
      refine ⟨fun schema hok => ?_, fun fault herror => ⟨hlater, herror ▸ hget⟩⟩
      obtain rfl : outcome = .ok schema := hok
      obtain rfl := (hsound after hafter target _ hget schema rfl).record_eq
      refine ⟨rfl, hlater.push (fun hmem => ?_) hreached hget⟩
      obtain ⟨other, hother, hrecord⟩ := List.mem_map.1 hmem
      have hdiffers := Array.findIdx?_eq_none_iff.1 hfind other (Array.mem_toList_iff.1 hother)
      rw [hrecord, beq_self_eq_true] at hdiffers
      cases hdiffers
    apply (hschema.mapError CodecError.schema fun fault _ h =>
      ⟨queue, target, fault, h.1, hreached, h.2, rfl⟩).bind
    intro schema
    apply Leads.pure
    rintro registry ⟨rfl, hpushed⟩
    exact ⟨⟨⟨foundIn_push _ _, rfl⟩, .nested Array.getElem?_push_size⟩, hpushed⟩

/-- The steps of some fields whose nested records are reached mirror their layouts. -/
theorem leads_planFields {fields : List (FieldLayout n)}
    (hreached : ∀ layout ∈ fields, ∀ target, layout.wire = .nested target →
      queue.Reaches root target) :
    Leads (queue.Sound invariant root)
      (fun result registry => (result.2.Extends queue ∧
        List.Forall₂ (Step.Mirrors result.2.found) result.1 fields) ∧
          result.2.Sound invariant root registry)
      (Unanalyzed invariant root) (planFields catalog queue fields) := by
  induction fields generalizing queue with
  | nil => exact .pure fun registry hqueue => ⟨⟨.refl queue, .nil⟩, hqueue⟩
  | cons field fields ih =>
    have hlater {wire : Wire Nat} {reached : PlanQueue n} (hextended : reached.Extends queue)
        (hwire : wire.Mirrors reached.found field.wire) :
        Leads (reached.Sound invariant root)
          (fun result registry => (result.2.Extends queue ∧
            List.Forall₂ (Step.Mirrors result.2.found) result.1 (field :: fields)) ∧
              result.2.Sound invariant root registry)
          (Unanalyzed invariant root) (do
            let result ← planFields catalog reached fields
            return ({ field := field.name, wire } :: result.1, result.2)) := by
      have hothers := @ih reached fun layout hlayout target htarget => reaches_of_foundIn
        hextended.found (hreached layout (List.mem_cons_of_mem _ hlayout) target htarget)
      apply hothers.bind
      intro result
      apply Leads.pure
      rintro registry ⟨⟨hextends, hsteps⟩, hqueue⟩
      have hstep : Step.Mirrors reached.found { field := field.name, wire } field := ⟨rfl, hwire⟩
      exact ⟨⟨hextended.trans hextends, .cons (hstep.mono hextends.found) hsteps⟩, hqueue⟩
    rw [planFields]
    cases hwire : field.wire with
    | leaf kind => exact hlater (.refl queue) (hwire ▸ .leaf kind)
    | nested target =>
      apply (leads_place hadmits hsound (hreached field List.mem_cons_self target hwire)).bind
      intro result
      apply Leads.given
      rintro ⟨hextends, hmirrors⟩
      exact hlater hextends (hwire ▸ hmirrors)

/-- Every round plans one schema, as long as one is left. -/
theorem leads_drain (rounds : Nat) :
    Leads (queue.Sound invariant root)
      (fun last registry => last.Sound invariant root registry ∧
        (last.plans.size = last.found.size ∨ last.plans.size = queue.plans.size + rounds))
      (Unanalyzed invariant root) (drain catalog rounds queue) := by
  induction rounds generalizing queue with
  | zero => exact .pure fun registry hqueue => ⟨hqueue, .inr rfl⟩
  | succ rounds ih =>
    rw [drain]
    cases hnext : queue.found[queue.plans.size]? with
    | none =>
      have hle := Array.getElem?_eq_none_iff.1 hnext
      exact .pure fun registry hqueue => ⟨hqueue, .inl (Nat.le_antisymm hqueue.plans_le hle)⟩
    | some schema =>
      have hschema : schema ∈ queue.found := Array.mem_of_getElem? hnext
      have hfields : Leads (queue.Sound invariant root)
          (fun result registry => (result.2.Extends queue ∧
            List.Forall₂ (Step.Mirrors result.2.found) result.1 schema.fields) ∧
              result.2.Sound invariant root registry)
          (Unanalyzed invariant root) (planFields catalog queue schema.fields) :=
        fun registry hqueue => leads_planFields hadmits hsound
          (fun _ hlayout _ hwire => hqueue.reaches_of_nested hschema hlayout hwire) registry hqueue
      apply hfields.bind
      intro result
      apply Leads.given
      rintro ⟨hextends, hsteps⟩
      have hrounds (plan : Plan Nat) :
          (result.2.plans.push plan).size + rounds = queue.plans.size + (rounds + 1) := by
        calc
          (result.2.plans.push plan).size + rounds =
              queue.plans.size + 1 + rounds := by rw [Array.size_push, hextends.plans_eq]
          _ = queue.plans.size + (rounds + 1) := Nat.add_right_comm _ _ _
      rw [← hrounds]
      exact ih.of_imp fun registry hqueue =>
        hqueue.push_plan hextends hnext ⟨rfl, rfl, rfl, hsteps⟩

/-- As many rounds as the family has records plan all schemas that are found from the root. -/
theorem leads_drain_start (root : Schema n) :
    Leads invariant
      (fun queue registry => queue.Sound invariant root registry ∧
        queue.plans.size = queue.found.size)
      (Unanalyzed invariant root) (drain catalog n (start root)) := by
  have hdrain := (leads_drain hadmits hsound n).of_imp
    fun registry (hregistry : invariant registry) => sound_start hregistry root
  apply hdrain.imp
  · rintro queue registry ⟨hqueue, hdone | hrounds⟩
    · exact ⟨hqueue, hdone⟩
    · -- Every one of `n` rounds planned a record, and there are no more than `n`.
      have hfound := hqueue.found_le
      have hplans := hqueue.plans_le
      have hstart : (start root).plans.size = 0 := rfl
      exact ⟨hqueue, by omega⟩
  · exact fun _ _ h => h

/-- So more rounds change nothing. -/
theorem run_drain_of_le {rounds : Nat} (hrounds : n ≤ rounds) (root : Schema n)
    (hregistry : invariant registry) :
    (drain catalog rounds (start root)).run registry =
      (drain catalog n (start root)).run registry := by
  obtain ⟨more, rfl⟩ := Nat.exists_eq_add_of_le hrounds
  rw [drain_add]
  apply run_bind_of_pure
  intro queue hqueue
  have hdone := ((leads_drain_start hadmits hsound root registry hregistry).1 queue hqueue).2
  exact drain_of_getElem?_eq_none (Array.getElem?_eq_none (Nat.le_of_eq hdone.symm)) more

end Compiling

end PlanQueue

/-- The program has the plans of the schemas that were found from `root`, which the registry has as
entries. -/
structure Program.Flattens (program : Program) (invariant : Registry n → Prop) (root : Schema n)
    (found : Array (Schema n)) (registry : Registry n) : Prop where
  sound : PlanQueue.Sound invariant root { found, plans := program.plans } registry
  size_eq : program.plans.size = found.size

namespace Program

variable {invariant : Registry n → Prop} {catalog : Catalog n} {root : Schema n}
variable {program : Program} {found : Array (Schema n)} {registry : Registry n}

/-- Compiling gives the plans of all schemas found, or fails at a record without a schema or at a
plan that does not add up. -/
theorem leads_compile (hadmits : Analysis.Admits invariant catalog)
    (hsound : ∀ registry, invariant registry → registry.Sound) (root : Schema n) :
    Leads invariant
      (fun program registry => program.verify = .ok () ∧
        ∃ found, program.Flattens invariant root found registry)
      (fun error registry => invariant registry ∧
        (PlanQueue.Unanalyzed invariant root error registry ∨
          ∃ program found, Flattens program invariant root found registry ∧
            program.verify = .error error))
      (compile catalog root) := by
  apply ((PlanQueue.leads_drain_start hadmits hsound root).imp (fun queue registry h =>
    (⟨h.1, h.2⟩ : Flattens { plans := queue.plans } invariant root queue.found registry))
      fun _ _ ⟨queue, target, fault, hqueue, h⟩ =>
        ⟨hqueue.holds, .inl ⟨queue, target, fault, hqueue, h⟩⟩).bind
  intro queue
  have hverify : Leads
      (fun registry => Flattens { plans := queue.plans } invariant root queue.found registry)
      (fun _ registry => verify { plans := queue.plans } = .ok () ∧
        Flattens { plans := queue.plans } invariant root queue.found registry)
      (fun error registry => invariant registry ∧
        (PlanQueue.Unanalyzed invariant root error registry ∨
          ∃ program found, Flattens program invariant root found registry ∧
            program.verify = .error error))
      (ExceptT.mk (pure (verify { plans := queue.plans })) : Generation n Unit) :=
    .ofExcept (fun _ hok _ h => ⟨hok, h⟩) fun _ herror _ h =>
      ⟨h.sound.holds, .inr ⟨_, _, h, herror⟩⟩
  exact hverify.bind fun _ => .pure fun _ h => ⟨h.1, _, h.2⟩

namespace Flattens

theorem mirrors_of_mem (h : program.Flattens invariant root found registry) {plan : Plan Nat}
    (hplan : plan ∈ program.plans) : ∃ schema ∈ found, plan.Mirrors found schema := by
  obtain ⟨place, hplace⟩ := Array.mem_iff_getElem?.1 hplan
  obtain ⟨schema, hschema, hmirrors⟩ := h.sound.planned place plan hplace
  exact ⟨schema, Array.mem_of_getElem? hschema, hmirrors⟩

theorem mirrors (h : program.Flattens invariant root found registry) {place : Nat}
    {schema : Schema n} (hschema : found[place]? = some schema) :
    (program.plan place).Mirrors found schema := by
  obtain ⟨hlt, -⟩ := Array.getElem?_eq_some_iff.1 hschema
  have hplace : place < program.plans.size := h.size_eq ▸ hlt
  obtain ⟨other, hother, hmirrors⟩ := h.sound.planned place _ (Array.getElem?_eq_getElem hplace)
  obtain rfl : schema = other := Option.some.inj (hschema.symm.trans hother)
  rwa [plan_of_lt hplace]

theorem exists_mirrors_of_mem_steps (h : program.Flattens invariant root found registry)
    {place : Nat} {step : Step Nat} (hstep : step ∈ (program.plan place).steps) :
    ∃ schema, found[place]? = some schema ∧ (program.plan place).Mirrors found schema := by
  rcases Nat.lt_or_ge place program.plans.size with hlt | hle
  · have hplace := h.size_eq ▸ hlt
    exact ⟨_, Array.getElem?_eq_getElem hplace, h.mirrors (Array.getElem?_eq_getElem hplace)⟩
  · rw [plan_of_le hle] at hstep
    cases hstep

/-- If the root is an entry of the registry, all schemas are. -/
theorem held (h : program.Flattens invariant root found registry)
    (hroot : registry.get? root.record = some (.ok root)) {schema : Schema n}
    (hschema : schema ∈ found) : registry.get? schema.record = some (.ok schema) := by
  rcases h.sound.held schema hschema with rfl | hheld
  · exact hroot
  · exact hheld

/-- When every plan adds up, the plans make a well-formed program. -/
theorem wellFormed (h : program.Flattens invariant root found registry)
    (hadmissible : ∀ schema ∈ found, AdmissibleFields schema.fields)
    (hverify : program.verify = .ok ()) : program.WellFormed where
  inhabited := by
    obtain ⟨hlt, -⟩ := Array.getElem?_eq_some_iff.1 h.sound.first
    exact h.size_eq ▸ hlt
  inRange plan hplan step hstep target hwire := by
    obtain ⟨schema, -, hmirrors⟩ := h.mirrors_of_mem hplan
    obtain ⟨layout, -, hlayout⟩ := exists_right_of_forall₂ hmirrors.steps hstep
    obtain ⟨other, hother, -⟩ := (hwire ▸ hlayout.wire).exists_of_nested
    exact h.size_eq ▸ (Array.getElem?_eq_some_iff.1 hother).1
  admissible _ step hstep kind hwire := by
    obtain ⟨schema, hschema, hmirrors⟩ := h.mirrors_of_mem (plan_mem_of_mem_steps hstep)
    obtain ⟨layout, hlayout, hmirrored⟩ := exists_right_of_forall₂ hmirrors.steps hstep
    exact hadmissible schema hschema layout hlayout kind (hwire ▸ hmirrored.wire).eq_leaf
  sums := sums_of_verify hverify

theorem admissible (h : program.Flattens invariant root found registry)
    (hsound : registry.Sound) (hroot : AdmissibleFields root.fields) :
    ∀ schema ∈ found, AdmissibleFields schema.fields := by
  intro schema hschema
  rcases h.sound.held schema hschema with rfl | hheld
  · exact hroot
  · exact (hsound _ _ hheld schema rfl).admissible

end Flattens

/-- What compiling gives is well-formed, whatever the definitions were when they were looked up. -/
theorem compile_maintains (catalog : Catalog n) {root : Schema n}
    (hroot : AdmissibleFields root.fields) :
    Maintains Registry.Sound WellFormed (compile catalog root) := by
  have hcompile := leads_compile (Registry.admits_sound catalog) (fun _ h => h) root
  refine maintains_iff_leads.2 (hcompile.imp (fun program registry h => ?_) fun _ _ h => h.1)
  obtain ⟨hverify, found, hflattens⟩ := h
  have hsound := hflattens.sound.holds
  exact ⟨hflattens.wellFormed (hflattens.admissible hsound hroot) hverify, hsound⟩

end Program

end RecordCodec
