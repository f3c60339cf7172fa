import RecordCodec.Proofs.RoundTrip
import RecordCodec.Proofs.Codec.Transparency

/-!
# Records that reach a cycle

A record that reaches a cycle of nested fields can be compiled, but no value of it is finite.  In
its program every plan of such a record has a step that nests another one, so a wire form would have
to go on inwards without end.  There is none, hence nothing is written and no reading succeeds.
-/

namespace RecordCodec

variable {n : Nat}

/-- If every record of some kind nests another one of that kind, then no values of such a record
have a wire form. -/
theorem WireForm.not_of_endless {ρ : Type} {planOf : ρ → Plan ρ} {limits : Limits} {depth : Nat}
    {steps : List (Step ρ)} {values : List Value} {bytes : List UInt8} {endless : ρ → Prop}
    (hendless : ∀ record, endless record →
      ∃ step ∈ (planOf record).steps, ∃ target, step.wire = .nested target ∧ endless target)
    (hsteps : ∃ step ∈ steps, ∃ target, step.wire = .nested target ∧ endless target) :
    ¬ WireForm planOf limits depth steps values bytes := by
  intro h
  induction h with
  | nil =>
    obtain ⟨_, hmem, -⟩ := hsteps
    cases hmem
  | leaf hwire _ _ ih =>
    obtain ⟨other, hmem, target, hother, htarget⟩ := hsteps
    rcases List.mem_cons.1 hmem with rfl | hmem
    · cases hwire.symm.trans hother
    · exact ih ⟨other, hmem, target, hother, htarget⟩
  | nested hwire _ _ _ ihfields ih =>
    obtain ⟨other, hmem, target, hother, htarget⟩ := hsteps
    rcases List.mem_cons.1 hmem with rfl | hmem
    · obtain rfl := Wire.nested.inj (hwire.symm.trans hother)
      exact ihfields (hendless _ htarget)
    · exact ih ⟨other, hmem, target, hother, htarget⟩

/-- The record whose schema was found at `place` reaches a cycle. -/
def Catalog.EndlessAt (catalog : Catalog n) (found : Array (Schema n)) (place : Nat) : Prop :=
  ∃ schema, found[place]? = some schema ∧ catalog.ReachesCycle schema.record

namespace CoreCodec

variable {core : CoreCodec n} {catalog : Catalog n} {record : RecordId n}

/-- The program of a record that reaches a cycle has no wire form. -/
theorem GeneratedUnder.not_rootForm (hcore : core.GeneratedUnder catalog record)
    (hcycle : catalog.ReachesCycle record) (values : List Value) (bytes : List UInt8) :
    ¬ core.program.RootForm core.limits values bytes := by
  obtain ⟨root, found, registry, -, hflattens, rfl, houtcome⟩ := hcore.exists_flattens
  have hendless : ∀ place, catalog.EndlessAt found place →
      ∃ step ∈ (core.program.plan place).steps,
        ∃ target, step.wire = .nested target ∧ catalog.EndlessAt found target := by
    rintro place ⟨schema, hschema, hreaches⟩
    obtain ⟨inner, hnests, hinner⟩ := Catalog.reachesCycle_iff.1 hreaches
    obtain ⟨_, -, hfinds⟩ :=
      Catalog.finds_of_outcome (houtcome schema (Array.mem_of_getElem? hschema))
    obtain ⟨layout, hlayout, hwire⟩ := hfinds.exists_layout_of_nests hnests
    obtain ⟨step, hstep, target, other, hother, rfl, htarget⟩ :=
      (hflattens.mirrors hschema).exists_step_of_nested hlayout hwire
    exact ⟨step, hstep, target, htarget, other, hother, hinner⟩
  exact WireForm.not_of_endless hendless (hendless 0 ⟨root, hflattens.sound.first, hcycle⟩)

theorem GeneratedUnder.wellFormed (hcore : core.GeneratedUnder catalog record) :
    core.program.WellFormed := by
  obtain ⟨root, found, registry, hverify, hflattens, -, houtcome⟩ := hcore.exists_flattens
  refine hflattens.wellFormed (fun schema hschema => ?_) hverify
  obtain ⟨_, -, hfinds⟩ := Catalog.finds_of_outcome (houtcome schema hschema)
  exact hfinds.describes.admissible

/-- A core codec of a record that reaches a cycle never succeeds.  It refuses any values before a
byte is written, and no reading that ends, within whatever budget, gives values. -/
theorem fails_of_reachesCycle (hcore : core.GeneratedUnder catalog record)
    (hcycle : catalog.ReachesCycle record) :
    (∀ values, ∃ error, core.encodedLength values = .error error ∧
      ∀ {κ : Type} [Sink κ] (sink : κ),
        (core.encode values).run sink = (.error error, sink)) ∧
    ∀ {σ : Type} [Source σ] (source : σ) (outcome : Except CodecError (List Value)) (after : σ),
      (core.decodeUnchecked.run source = some (outcome, after) ∨
        core.decodeChecked.run source = some (outcome, after) ∨
        ∃ budget, (decodeRecord core.program.plan core.limits budget 0 0).run source =
          some (outcome, after)) →
      ∃ error, outcome = .error error := by
  have hnone := hcore.not_rootForm hcycle
  constructor
  · intro values
    cases hlength : core.encodedLength values with
    | error error =>
      exact ⟨error, rfl, fun sink => Program.run_encode_of_error hlength⟩
    | ok length =>
      obtain ⟨bytes, hform, -⟩ := Program.exists_rootForm hcore.wellFormed hlength
      exact absurd hform (hnone values bytes)
  · intro σ _ source outcome after hrun
    cases outcome with
    | error error => exact ⟨error, rfl⟩
    | ok values =>
      obtain ⟨budget, hread⟩ : ∃ budget,
          (decodeRecord core.program.plan core.limits budget 0 0).run source =
            some (.ok values, after) := by
        rcases hrun with hunchecked | hchecked | hread
        · exact ⟨_, hunchecked⟩
        · exact ⟨_, decodeUnchecked_of_decodeChecked hchecked⟩
        · exact hread
      obtain ⟨bytes, hform, -⟩ := wireForm_of_decodeRecord hread
      exact absurd hform (hnone values bytes)

end CoreCodec

namespace Sample

def endlessCatalog : Catalog 2
  | 0 => { name := "Envelope", fields := [⟨"version", .int8, .none⟩, ⟨"body", .nested 1, .none⟩] }
  | 1 => { name := "Node", fields := [⟨"value", .int8, .none⟩, ⟨"next", .nested 1, .none⟩] }

def envelopeSchema : Schema 2 where
  record := 0
  name := "Envelope"
  fields := [⟨"version", .int8, .leaf .int8, some 1⟩, ⟨"body", .nested 1, .nested 1, none⟩]
  fixedSize := none
  cyclic := true

def envelopeCore : CoreCodec 2 where
  record := 0
  program := {
    plans := #[
      { name := "Envelope", fixedSize := none, cyclic := true
        steps := [⟨"version", .leaf .int8⟩, ⟨"body", .nested 1⟩] },
      { name := "Node", fixedSize := none, cyclic := true
        steps := [⟨"value", .leaf .int8⟩, ⟨"next", .nested 1⟩] }] }
  limits := .standard

/-- An envelope is not itself on a cycle, but no values of it can be written or read. -/
theorem envelope_fails :
    envelopeCore.GeneratedUnder endlessCatalog 0 ∧ endlessCatalog.ReachesCycle 0 ∧
      (∀ values, ∃ error, envelopeCore.encodedLength values = .error error) ∧
      ∀ (source after : Reader) (values : List Value),
        envelopeCore.decodeChecked.run source ≠ some (.ok values, after) := by
  have hcore : envelopeCore.GeneratedUnder endlessCatalog 0 := by
    refine ⟨envelopeSchema, .standard, .empty, .empty, ⟨[], rfl⟩, ⟨[], rfl⟩, .inl rfl, ?_⟩
    with_unfolding_all rfl
  have hcycle : endlessCatalog.ReachesCycle 0 :=
    ⟨1, .single (by decide), .single (by decide)⟩
  obtain ⟨hencode, hdecode⟩ := CoreCodec.fails_of_reachesCycle hcore hcycle
  refine ⟨hcore, hcycle, fun values => ?_, fun source after values hrun => ?_⟩
  · obtain ⟨error, hlength, -⟩ := hencode values
    exact ⟨error, hlength⟩
  · obtain ⟨error, herror⟩ := hdecode source _ after (.inr (.inl hrun))
    cases herror

end Sample

end RecordCodec
