import RecordCodec.Codec.Basic
import RecordCodec.Proofs.Plan.Compile
import RecordCodec.Proofs.Wire.Root

/-!
# Generated cores

Core codecs are generated from analyzed schemas, and schemas are analyzed with the help of a
registry.  The registry may have answered any requests before, and the definitions may have been
others each time.  Whatever happened, the program of a generated core is well-formed.
-/

namespace RecordCodec

variable {n : Nat}

mutual

/-- One registry comes from another by one request, with the definitions as they stand then. -/
inductive Registry.Step : Registry n → Registry n → Prop
  | schema (catalog : Catalog n) (record : RecordId n) (registry : Registry n) :
      Registry.Step registry ((Registry.schema catalog record).run registry).2
  | analyze (catalog : Catalog n) (record : RecordId n) (registry : Registry n) :
      Registry.Step registry ((Registry.analyze catalog record).run registry).2
  | generate (catalog : Catalog n) {schema : Schema n} (hschema : Schema.Analyzed schema)
      (limits : Limits) (registry : Registry n) :
      Registry.Step registry ((CoreCodec.generate catalog schema limits).run registry).2

/-- The registry was empty once. -/
inductive Registry.Reachable : Registry n → Prop
  | empty : Registry.Reachable .empty
  | step {registry after : Registry n} (h : Registry.Reachable registry)
      (hstep : Registry.Step registry after) : Registry.Reachable after

/-- The schema was looked up or analyzed some time. -/
inductive Schema.Analyzed : Schema n → Prop
  | schema {registry : Registry n} {schema : Schema n} (h : Registry.Reachable registry)
      (catalog : Catalog n) (record : RecordId n)
      (hrun : ((Registry.schema catalog record).run registry).1 = .ok schema) :
      Schema.Analyzed schema
  | analyze {registry : Registry n} {schema : Schema n} (h : Registry.Reachable registry)
      (catalog : Catalog n) (record : RecordId n)
      (hrun : ((Registry.analyze catalog record).run registry).1 = .ok schema) :
      Schema.Analyzed schema

end

/-- The core was generated from an analyzed schema. -/
def CoreCodec.Generated (core : CoreCodec n) : Prop :=
  ∃ catalog schema limits registry, Schema.Analyzed schema ∧ Registry.Reachable registry ∧
    ((CoreCodec.generate catalog schema limits).run registry).1 = .ok core

/-- Generating succeeds and fails as compiling does, and notes the record and the limits. -/
theorem CoreCodec.leads_generate {invariant : Registry n → Prop} {catalog : Catalog n}
    (hadmits : Analysis.Admits invariant catalog)
    (hsound : ∀ registry, invariant registry → registry.Sound) (root : Schema n)
    (limits : Limits) :
    Leads invariant
      (fun core registry => core.record = root.record ∧ core.limits = limits ∧
        core.program.verify = .ok () ∧
          ∃ found, core.program.Flattens invariant root found registry)
      (fun error registry => invariant registry ∧
        (PlanQueue.Unanalyzed invariant root error registry ∨
          ∃ program found, Program.Flattens program invariant root found registry ∧
            program.verify = .error error))
      (generate catalog root limits) :=
  (Program.leads_compile hadmits hsound root).bind fun _ => .pure fun _ h => ⟨rfl, rfl, h⟩

theorem CoreCodec.generate_maintains (catalog : Catalog n) {schema : Schema n}
    (hschema : AdmissibleFields schema.fields) (limits : Limits) :
    Maintains Registry.Sound (·.program.WellFormed) (CoreCodec.generate catalog schema limits) :=
  (Program.compile_maintains catalog hschema).bind fun _ hprogram => .pure hprogram

mutual

theorem Registry.Step.sound : ∀ {registry after : Registry n},
    Registry.Step registry after → registry.Sound → after.Sound
  | _, _, .schema catalog record registry, hsound =>
    (Registry.schema_maintains catalog record registry hsound).1
  | _, _, .analyze catalog record registry, hsound =>
    (Registry.analyze_maintains catalog record registry hsound).1
  | _, _, .generate catalog hschema limits registry, hsound =>
    (CoreCodec.generate_maintains catalog hschema.admissible limits registry hsound).1

theorem Registry.Reachable.sound : ∀ {registry : Registry n},
    registry.Reachable → registry.Sound
  | _, .empty => Memo.all_empty
  | _, .step h hstep => hstep.sound h.sound

theorem Schema.Analyzed.admissible : ∀ {schema : Schema n},
    schema.Analyzed → AdmissibleFields schema.fields
  | schema, .schema h catalog record hrun =>
    ((Registry.schema_maintains catalog record _ h.sound).2 schema hrun).admissible
  | schema, .analyze h catalog record hrun =>
    ((Registry.analyze_maintains catalog record _ h.sound).2 schema hrun).admissible

end

/-- What an empty registry satisfies and every request keeps holds of every reachable registry. -/
theorem Registry.Reachable.of_steps {invariant : Registry n → Prop} (hempty : invariant .empty)
    (hkeeps : ∀ registry after, Registry.Step registry after → invariant registry →
      invariant after) : ∀ {registry : Registry n}, registry.Reachable → invariant registry
  | _, .empty => hempty
  | _, .step h hstep => hkeeps _ _ hstep (h.of_steps hempty hkeeps)

/-- The program of a generated core is well-formed. -/
theorem CoreCodec.Generated.wellFormed {core : CoreCodec n} (h : core.Generated) :
    core.program.WellFormed := by
  obtain ⟨catalog, schema, limits, registry, hschema, hregistry, hrun⟩ := h
  exact (CoreCodec.generate_maintains catalog hschema.admissible limits registry
    hregistry.sound).2 core hrun

/-! ## Encodings

Values that a core accepts have one encoding: the check gives its length, and writing the values
puts just these bytes into any sink that has room for them.
-/

namespace CoreCodec

variable {core : CoreCodec n} {values : List Value} {bytes : List UInt8}

/-- The core accepts `values`, and `bytes` are what it writes for them. -/
structure EncodesTo (core : CoreCodec n) (values : List Value) (bytes : List UInt8) : Prop where
  encodedLength_eq : core.encodedLength values = .ok bytes.length
  run_encode : ∀ {κ : Type} [LawfulSink κ] (sink : κ), bytes.length ≤ Sink.capacity sink →
    (core.encode values).run sink = (.ok bytes.length, LawfulSink.append bytes sink)

theorem encodesTo_of_rootForm (h : core.program.RootForm core.limits values bytes) :
    core.EncodesTo values bytes where
  encodedLength_eq := h.encodedLength
  run_encode _ hroom := h.run_encode hroom

/-- Accepted values have an encoding, which is their wire form. -/
theorem exists_encodesTo {length : Nat} (hprogram : core.program.WellFormed)
    (hlength : core.encodedLength values = .ok length) :
    ∃ bytes, core.program.RootForm core.limits values bytes ∧ core.EncodesTo values bytes ∧
      bytes.length = length := by
  obtain ⟨bytes, hform, hbytes⟩ := Program.exists_rootForm hprogram hlength
  exact ⟨bytes, hform, encodesTo_of_rootForm hform, hbytes⟩

/-- The length of an encoding is the one that the check gives. -/
theorem EncodesTo.length_eq {length : Nat} (h : core.EncodesTo values bytes)
    (hlength : core.encodedLength values = .ok length) : bytes.length = length :=
  Except.ok.inj (h.encodedLength_eq.symm.trans hlength)

/-- Values have no other encoding, as a buffer of just the right size shows. -/
theorem EncodesTo.unique {other : List UInt8} (h : core.EncodesTo values bytes)
    (hother : core.EncodesTo values other) : bytes = other := by
  have hlength : other.length = bytes.length := hother.length_eq h.encodedLength_eq
  have hroom : bytes.length ≤ Sink.capacity (Buffer.zeroed bytes.length) := by
    change bytes.length ≤ (Buffer.zeroed bytes.length).capacity
    simp [Buffer.capacity, Buffer.zeroed]
  have hroomOther : other.length ≤ Sink.capacity (Buffer.zeroed bytes.length) := hlength ▸ hroom
  have hsame := (h.run_encode _ hroom).symm.trans (hother.run_encode _ hroomOther)
  have hwritten := congrArg (fun result => LawfulSink.written result.2) hsame
  simp only [LawfulSink.written_append hroom, LawfulSink.written_append hroomOther] at hwritten
  exact List.append_cancel_left hwritten

end CoreCodec

/-! ## A sample -/

namespace Sample

def catalog : Catalog 2
  | 0 => { name := "Label", fields := [⟨"at", .nested 1, .none⟩, ⟨"text", .text, .none⟩] }
  | 1 => { name := "Point", fields := [⟨"x", .int16, .none⟩, ⟨"y", .int32, .asU8⟩] }

def labelSchema : Schema 2 where
  record := 0
  name := "Label"
  fields := [⟨"at", .nested 1, .nested 1, some 3⟩, ⟨"text", .text, .leaf .text, none⟩]
  fixedSize := none
  cyclic := false

def pointPlan : Plan Nat where
  name := "Point"
  fixedSize := some 3
  cyclic := false
  steps := [⟨"x", .leaf .int16⟩, ⟨"y", .leaf (.unsigned32 .u8)⟩]

def labelPlan : Plan Nat where
  name := "Label"
  fixedSize := none
  cyclic := false
  steps := [⟨"at", .nested 1⟩, ⟨"text", .leaf .text⟩]

def labelCore : CoreCodec 2 where
  record := 0
  program := { plans := #[labelPlan, pointPlan] }
  limits := .standard

theorem labelCore_generated : labelCore.Generated := by
  refine ⟨catalog, labelSchema, .standard, .empty, .schema .empty catalog 0 rfl, .empty, ?_⟩
  -- The queue is searched by well-founded recursion, which plain `rfl` does not unfold.
  with_unfolding_all rfl

def labelValues : List Value :=
  [.record [.int16 1, .int32 7], .text "ab"]

end Sample

end RecordCodec
