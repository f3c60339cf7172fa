import RecordCodec.Proofs.Codec.Upkeep
import RecordCodec.Proofs.Layout.Ranks
import RecordCodec.Proofs.Plan.OpenRecords

/-!
# Reading nests boundedly

The order in which the entries of a registry came ranks the plans of every program that is made from
them.  So a codec from a cache opens, at each depth, no plan inside itself, and the depth limit
bounds how many records are open at once: reading ends, and a budget of one round of plans for each
depth is never spent, even if a record nests itself and takes no bytes.
-/

namespace RecordCodec

variable {n : Nat}

/-! ## Ranked programs -/

/-- If all schemas are entries of a registry, the order of the entries ranks their plans. -/
theorem Program.Flattens.exists_graded {program : Program} {invariant : Registry n → Prop}
    {root : Schema n} {found : Array (Schema n)} {registry : Registry n}
    (h : program.Flattens invariant root found registry) (hgrown : registry.Grown)
    (hroot : registry.get? root.record = some (.ok root)) : ∃ rank, program.Graded rank := by
  obtain ⟨rank, hrank⟩ := hgrown.exists_ranked
  refine ⟨fun place => (found[place]?.map fun schema => rank schema.record).getD 0, ?_⟩
  intro place hflag step hstep target hwire
  obtain ⟨schema, hschema, hmirrors⟩ := h.exists_mirrors_of_mem_steps hstep
  obtain ⟨layout, hlayout, hlays⟩ := exists_right_of_forall₂ hmirrors.steps hstep
  obtain ⟨inner, hinner, hnested⟩ := (hwire ▸ hlays.wire).exists_of_nested
  have hacyclic : schema.cyclic = false := hmirrors.cyclic_eq.symm.trans hflag
  have hfalls : rank inner.record < rank schema.record :=
    (hrank.falls schema (h.held hroot (Array.mem_of_getElem? hschema)) hacyclic layout hlayout
      inner.record hnested).2
  simpa [hschema, hinner] using hfalls

/-- The core runs within `limits`, and its plans can be ranked. -/
structure CoreCodec.Bounded (limits : Limits) (core : CoreCodec n) : Prop where
  limits_eq : core.limits = limits
  graded : ∃ rank, core.program.Graded rank

def YieldsBounded (limits : Limits) (_ : RecordId n) (outcome : Except CodecError (CoreCodec n)) :
    Prop :=
  ∀ core, outcome = .ok core → core.Bounded limits

/-- Whatever the definitions are, a core that is generated is bounded, as long as the entries of the
registry came one after the other. -/
theorem upholds_bounded (limits : Limits) (catalog : Catalog n) :
    Upholds Registry.Grown (YieldsBounded limits) limits catalog := by
  apply upholds_of_generated (Registry.admits_grown catalog) fun _ hgrown => hgrown.coherent
  · intro schema core found registry hlimits hflattens made heq
    obtain rfl : core = made := Except.ok.inj heq
    obtain ⟨hgrown, hroot⟩ := hflattens.sound.holds
    exact ⟨hlimits, hflattens.exists_graded hgrown hroot⟩
  · exact fun _ => nofun

/-! ## Reading ends -/

section Reading

open Decoding

variable {σ : Type} [Source σ] {core : CoreCodec n}

/-- The budget that reading starts with is enough for as many rounds of plans as there may be
depths. -/
theorem CoreCodec.Bounded.exists_run {limits : Limits} (hcore : core.Bounded limits)
    (hlimit : limits.nestingDepth < maxCount) (hformed : core.program.WellFormed) (source : σ) :
    ∃ result, core.decodeUnchecked.run source = some result ∧
      ∀ budget, (limits.nestingDepth + 1) * core.program.plans.size ≤ budget →
        (decodeRecord core.program.plan core.limits budget 0 0).run source = some result := by
  obtain ⟨rfl, rank, hgraded⟩ := hcore
  obtain ⟨result, hresult⟩ :=
    hgraded.exists_run_decodeRecord hformed.inRange hformed.inhabited hlimit source
  refine ⟨result, hresult _ ?_, hresult⟩
  rw [Program.budget, Nat.mul_comm]
  apply Nat.mul_le_mul_left
  omega

theorem CoreCodec.decodeChecked_ends (hcore : Ends (core.decodeUnchecked : Decoding σ _)) :
    Ends (core.decodeChecked : Decoding σ (List Value)) := by
  intro source
  rw [decodeChecked]
  cases hsize : core.program.root.fixedSize with
  | none =>
    rw [Program.run_decodeChecked_of_none hsize]
    exact hcore source
  | some size =>
    rw [Program.run_decodeChecked_of_some hsize]
    by_cases hshort : Source.remaining source < size
    · simp [hshort]
    · rw [if_neg hshort]
      exact hcore source

/-- Fitting values to the types of a record needs no budget. -/
theorem Codec.decode_ends (types : TypeTable n) {codec : Codec n}
    (hcore : Ends (codec.core.decodeUnchecked : Decoding σ _)) :
    Ends (codec.decode types : Decoding σ (List Datum)) := by
  cases codec with
  | dynamic codec => exact hcore.bind fun values => .ofExcept _
  | fixed codec =>
    have hvalues : Ends (do
        let values ← codec.core.decodeChecked
        Decoding.ofExcept (types.ofValues codec.core.record values) :
          Decoding σ (List Datum)) :=
      (CoreCodec.decodeChecked_ends hcore).bind fun values => .ofExcept _
    intro source
    rw [decode, FixedCodec.run_decode]
    by_cases hshort : Source.remaining source < codec.size
    · simp [hshort]
    · rw [if_neg hshort]
      exact hvalues source

end Reading

/-- Reading nests boundedly.  Whatever a cache was asked, and however the definitions changed in
between, reading ends with every codec that it hands out, whatever the source is.  There are never
more records open at once than the program has plans, for each depth up to the limit: the run is the
same with any budget from there on. -/
theorem Cache.Reachable.decode_bounded {cache : Cache n} (hcache : cache.Reachable)
    (hlimit : cache.limits.nestingDepth < maxCount) (catalog : Catalog n) {query : Query n}
    {codec : Codec n} (hrun : ((query.ask catalog).run cache).1 = .ok codec) {σ : Type} [Source σ]
    (source : σ) :
    (∃ result, codec.core.decodeUnchecked.run source = some result ∧
      ∀ budget, (cache.limits.nestingDepth + 1) * codec.core.program.plans.size ≤ budget →
        (decodeRecord codec.core.program.plan codec.core.limits budget 0 0).run source =
          some result) ∧
      ∀ types : TypeTable n, (codec.decode types).run source ≠ none := by
  have hkept := hcache.keeps .empty upholds_bounded
  have hparts := parts_of_upholds (upholds_bounded cache.limits catalog) (fun _ _ => trivial)
    (fun _ _ _ => trivial)
  obtain ⟨⟨⟨_, hmade⟩, -⟩, -⟩ := (hparts.leads_ask query cache hkept).1 codec hrun
  have hbounded : codec.core.Bounded cache.limits := hmade codec.core rfl
  have hformed := Codec.Issued.wellFormed ⟨cache, catalog, query, hcache, hrun⟩
  have hends : Decoding.Ends (codec.core.decodeUnchecked : Decoding σ _) := by
    intro source
    obtain ⟨result, hresult, -⟩ := hbounded.exists_run hlimit hformed source
    simp [hresult]
  exact ⟨hbounded.exists_run hlimit hformed source,
    fun types => Codec.decode_ends types hends source⟩

namespace Sample

def loopCatalog : Catalog 1 :=
  fun _ => { name := "Loop", fields := [⟨"next", .nested 0, .none⟩] }

def loopProgram : Program where
  plans := #[{ name := "Loop", fixedSize := none, cyclic := true, steps := [⟨"next", .nested 0⟩] }]

/-- Loops are opened up to the depth limit, eight of them inside the first, and no budget of nine is
spent; eight records open at once would not be enough. -/
theorem loop_bounded :
    (((Cache.Query.dynamic 0).ask loopCatalog).run (.empty 0 .testing)).1 =
        .ok (.dynamic ⟨⟨0, 0, ⟨0, loopProgram, .testing⟩⟩⟩) ∧
      (∃ result, ∀ budget, 9 ≤ budget →
        (decodeRecord loopProgram.plan .testing budget 0 0).run (Reader.ofList []) =
          some result) ∧
      (decodeRecord loopProgram.plan .testing 8 0 0).run (Reader.ofList []) = none := by
  have hrun : (((Cache.Query.dynamic 0).ask loopCatalog).run (.empty 0 .testing)).1 =
      .ok (.dynamic ⟨⟨0, 0, ⟨0, loopProgram, .testing⟩⟩⟩) := by with_unfolding_all rfl
  obtain ⟨⟨result, -, hbudget⟩, -⟩ := Cache.Reachable.decode_bounded (.empty 0 .testing)
    (by decide) loopCatalog hrun (Reader.ofList [])
  exact ⟨hrun, ⟨result, hbudget⟩, by with_unfolding_all rfl⟩

end Sample

end RecordCodec
