import RecordCodec.Proofs.ConstantLength
import RecordCodec.Proofs.Interchange
import RecordCodec.Proofs.LooserLimits

/-!
# Nesting without cycles

Records that reach no cycle nest as deep as their definitions do, and no deeper.  The depth limit is
not spent on them: whatever it is, even zero, their codecs read, check and write in the same way,
and never report that it is exceeded.  The flag by which a codec counts depth is the verdict of the
cycle walk on the nested record, and whatever a record without cycles nests has none either.
-/

namespace RecordCodec

def CodecError.DepthExceeded : CodecError → Prop
  | limitExceeded .nestingDepth _ _ => True
  | _ => False

theorem CodecError.FoundInLeaf.not_depthExceeded {error : CodecError} (h : error.FoundInLeaf) :
    ¬ error.DepthExceeded := by
  intro hdepth
  cases error with
  | limitExceeded kind => cases kind <;> first | exact h | exact hdepth
  | _ => exact hdepth

/-- The outcomes are the same, and not that records are nested too deep. -/
structure SameAtAnyDepth {α : Type} (first second : Except CodecError α) : Prop where
  eq : first = second
  unspared : Unspared CodecError.DepthExceeded first

namespace SameAtAnyDepth

variable {α β : Type} {first second : Except CodecError α}

theorem ok (value : α) : SameAtAnyDepth (.ok value) (.ok value) :=
  ⟨rfl, unspared_ok value⟩

theorem error {error : CodecError} (h : ¬ error.DepthExceeded) :
    SameAtAnyDepth (.error error : Except CodecError α) (.error error) :=
  ⟨rfl, unspared_error_iff.2 h⟩

theorem bind {next next' : α → Except CodecError β} (hfirst : SameAtAnyDepth first second)
    (hnext : ∀ value, SameAtAnyDepth (next value) (next' value)) :
    SameAtAnyDepth (first >>= next) (second >>= next') := by
  obtain ⟨rfl, hunspared⟩ := hfirst
  cases first with
  | error fault => exact error (hunspared fault rfl)
  | ok value => exact hnext value

end SameAtAnyDepth

variable {n : Nat} {limits limits' : Limits}

/-! ## Leaves -/

section Leaves

variable (hlength : limits.variableLength = limits'.variableLength)
include hlength

theorem Limits.effectiveLength_congr : limits.effectiveLength = limits'.effectiveLength := by
  rw [effectiveLength, effectiveLength, hlength]

theorem Leaf.decode_eq {σ : Type} [Source σ] (record field : String) (leaf : Leaf) :
    (leaf.decode record field limits : Decoding σ Value) = leaf.decode record field limits' := by
  have hread : (readVariable limits : Decoding σ (List UInt8)) = readVariable limits' := by
    rw [readVariable, readVariable, Limits.effectiveLength_congr hlength]
  cases leaf with
  | text | bytes => rw [Leaf.decode, Leaf.decode, hread]
  | _ => rfl

theorem variableLength_sameAtAnyDepth (record field : String) (length : Nat) :
    SameAtAnyDepth (variableLength record field limits length)
      (variableLength record field limits' length) := by
  rw [variableLength, variableLength, Limits.effectiveLength_congr hlength]
  split
  · exact .error id
  · exact .ok _

omit hlength in
theorem unsignedLength_sameAtAnyDepth (record field : String) (width : Width) (value : Int64) :
    SameAtAnyDepth (unsignedLength record field width value)
      (unsignedLength record field width value) := by
  rw [unsignedLength]
  split
  · exact .ok _
  · exact .error id

theorem Leaf.encodedLength_sameAtAnyDepth (record field : String) (leaf : Leaf) (value : Value) :
    SameAtAnyDepth (leaf.encodedLength record field limits value)
      (leaf.encodedLength record field limits' value) := by
  cases leaf <;> cases value
  case text.text => exact variableLength_sameAtAnyDepth hlength record field _
  case bytes.bytes => exact variableLength_sameAtAnyDepth hlength record field _
  case unsigned32.int32 => exact unsignedLength_sameAtAnyDepth record field _ _
  case unsigned64.int64 => exact unsignedLength_sameAtAnyDepth record field _ _
  case enum.enum variants ordinal =>
    rw [Leaf.encodedLength, Leaf.encodedLength]
    split
    · exact .ok _
    · exact .error id
  all_goals first | exact .ok _ | exact .error id

end Leaves

namespace Catalog

variable {catalog : Catalog n} {record : RecordId n}

/-- Nothing is counted on entering a record that reaches no cycle. -/
theorem enter_of_acyclic (hacyclic : ¬ catalog.ReachesCycle record) (limits : Limits)
    (depth : Nat) : limits.enter (catalog.isInfinitelyNested record) depth = .ok depth := by
  rw [isInfinitelyNested_eq_false_iff.2 hacyclic]
  rfl

/-! ## Reading -/

section Reading

variable {σ : Type} [Source σ] (haccepts : catalog.Accepts record)
variable (hacyclic : ¬ catalog.ReachesCycle record)
include haccepts hacyclic

theorem readRecord_eq_of_acyclic (hlength : limits.variableLength = limits'.variableLength)
    (budget depth : Nat) :
    (catalog.readRecord limits budget record depth : Decoding σ (List Value)) =
      catalog.readRecord limits' budget record depth := by
  induction budget generalizing record depth with
  | zero => rfl
  | succ budget ih =>
    apply mapM_congr_forall₂
    refine List.forall₂_same.2 fun field hfield => ?_
    rcases leaf_or_nested_of_acyclic haccepts hacyclic hfield with
      ⟨kind, hwire⟩ | ⟨target, hwire, htarget, hacyclic', -⟩
    · rw [readField_of_leaf hwire, readField_of_leaf hwire]
      exact Leaf.decode_eq hlength _ _ kind
    · rw [readField_of_nested hwire, readField_of_nested hwire, enter_of_acyclic hacyclic',
        enter_of_acyclic hacyclic']
      congr 1
      funext inner
      exact congrArg (Value.record <$> ·) (ih htarget hacyclic' inner)

theorem readRecord_finds_of_acyclic (budget depth : Nat) :
    Decoding.FailsWith CodecError.FoundInLeaf
      (catalog.readRecord limits budget record depth : Decoding σ (List Value)) := by
  induction budget generalizing record depth with
  | zero => exact .exhausted
  | succ budget ih =>
    apply Decoding.FailsWith.mapM
    intro field hfield
    rcases leaf_or_nested_of_acyclic haccepts hacyclic hfield with
      ⟨kind, hwire⟩ | ⟨target, hwire, htarget, hacyclic', -⟩
    · rw [readField_of_leaf hwire]
      exact Leaf.decode_finds (FieldDef.admissible_of_wire hwire) _ _
    · rw [readField_of_nested hwire, enter_of_acyclic hacyclic']
      exact (Decoding.FailsWith.ofExcept nofun).bind fun inner _ =>
        (ih htarget hacyclic' inner).map _

end Reading

/-! ## Checking -/

section Checking

theorem checkCount_sameAtAnyDepth (catalog : Catalog n) (record : RecordId n)
    (values : List Value) :
    SameAtAnyDepth (catalog.checkCount record values) (catalog.checkCount record values) := by
  rw [checkCount]
  split
  · exact .ok _
  · exact .error id

mutual

theorem fieldLength_sameAtAnyDepth (hlength : limits.variableLength = limits'.variableLength)
    {record : RecordId n} (haccepts : catalog.Accepts record)
    (hacyclic : ¬ catalog.ReachesCycle record) (depth : Nat) {field : FieldDef n}
    (hfield : field ∈ (catalog record).fields) (value : Value) :
    SameAtAnyDepth (catalog.fieldLength limits record depth field value)
      (catalog.fieldLength limits' record depth field value) := by
  rcases leaf_or_nested_of_acyclic haccepts hacyclic hfield with
    ⟨kind, hwire⟩ | ⟨target, hwire, htarget, hacyclic', -⟩
  · rw [fieldLength_of_leaf hwire, fieldLength_of_leaf hwire]
    exact Leaf.encodedLength_sameAtAnyDepth hlength _ _ kind value
  · cases value with
    | record values =>
      rw [fieldLength_of_nested hwire, fieldLength_of_nested hwire, enter_of_acyclic hacyclic',
        enter_of_acyclic hacyclic']
      apply (SameAtAnyDepth.ok depth).bind
      intro inner
      apply (catalog.checkCount_sameAtAnyDepth target values).bind
      intro _
      exact fieldsLength_sameAtAnyDepth hlength htarget hacyclic' inner (fun _ hmem => hmem) values
    | _ =>
      simp only [fieldLength, resolve_of_ok hwire]
      exact .error id

theorem fieldsLength_sameAtAnyDepth (hlength : limits.variableLength = limits'.variableLength)
    {record : RecordId n} (haccepts : catalog.Accepts record)
    (hacyclic : ¬ catalog.ReachesCycle record) (depth : Nat) {fields : List (FieldDef n)}
    (hfields : fields ⊆ (catalog record).fields) (values : List Value) :
    SameAtAnyDepth (catalog.fieldsLength limits record depth fields values)
      (catalog.fieldsLength limits' record depth fields values) := by
  cases fields with
  | nil =>
    simp only [fieldsLength]
    exact .ok 0
  | cons field fields =>
    cases values with
    | nil =>
      simp only [fieldsLength]
      exact .ok 0
    | cons value values =>
      obtain ⟨hfield, hothers⟩ := List.cons_subset.1 hfields
      rw [fieldsLength, fieldsLength]
      apply (fieldLength_sameAtAnyDepth hlength haccepts hacyclic depth hfield value).bind
      intro first
      apply (fieldsLength_sameAtAnyDepth hlength haccepts hacyclic depth hothers values).bind
      intro rest
      exact .ok _

end

theorem writtenLength_sameAtAnyDepth (hlength : limits.variableLength = limits'.variableLength)
    {record : RecordId n} (haccepts : catalog.Accepts record)
    (hacyclic : ¬ catalog.ReachesCycle record) (values : List Value) :
    SameAtAnyDepth (catalog.writtenLength limits record values)
      (catalog.writtenLength limits' record values) :=
  (catalog.checkCount_sameAtAnyDepth record values).bind fun _ =>
    fieldsLength_sameAtAnyDepth hlength haccepts hacyclic 0 (fun _ hmem => hmem) values

end Checking

end Catalog

/-! ## Core codecs -/

namespace CoreCodec

variable {catalog : Catalog n} {record : RecordId n} {core core' : CoreCodec n}

structure DoesSame (core core' : CoreCodec n) : Prop where
  decodeUnchecked : ∀ {σ : Type} [Source σ],
    (core.decodeUnchecked : Decoding σ (List Value)) = core'.decodeUnchecked
  decodeChecked : ∀ {σ : Type} [Source σ],
    (core.decodeChecked : Decoding σ (List Value)) = core'.decodeChecked
  encodedLength : ∀ values, core.encodedLength values = core'.encodedLength values
  encode : ∀ {κ : Type} [Sink κ] (values : List Value),
    (core.encode values : Encoding κ Nat) = core'.encode values

/-- Whatever is read or written, the codec comes to an end, and not because records are nested too
deep. -/
structure NeverTooDeep (core : CoreCodec n) : Prop where
  decodeUnchecked : ∀ {σ : Type} [Source σ] (source : σ), ∃ outcome after,
    core.decodeUnchecked.run source = some (outcome, after) ∧
      Unspared CodecError.DepthExceeded outcome
  decodeChecked : ∀ {σ : Type} [Source σ] (source : σ), ∃ outcome after,
    core.decodeChecked.run source = some (outcome, after) ∧
      Unspared CodecError.DepthExceeded outcome
  encodedLength : ∀ values, Unspared CodecError.DepthExceeded (core.encodedLength values)
  encode : ∀ {κ : Type} [Sink κ] (values : List Value) (sink : κ),
    Unspared CodecError.DepthExceeded ((core.encode values).run sink).1

/-- A codec of the same program within other limits is one that could be generated as well. -/
theorem GeneratedUnder.withLimits (hcore : core.GeneratedUnder catalog record) (limits : Limits) :
    { core with limits }.GeneratedUnder catalog record := by
  obtain ⟨root, _, registry, registry', hregistry, hregistry', hroot, hrun⟩ := hcore
  refine ⟨root, limits, registry, registry', hregistry, hregistry', hroot, ?_⟩
  rw [generate] at hrun ⊢
  cases hcompile : (Program.compile catalog root).run registry' with
  | mk outcome after =>
    cases outcome with
    | error error =>
      rw [run_bind_of_error hcompile] at hrun
      cases hrun
    | ok program =>
      rw [run_bind_of_ok hcompile] at hrun ⊢
      cases hrun
      rfl

theorem Follows.doesSame (hcore : core.Follows catalog record)
    (hcore' : core'.Follows catalog record) (haccepts : catalog.Accepts record)
    (hacyclic : ¬ catalog.ReachesCycle record)
    (hlength : core.limits.variableLength = core'.limits.variableLength) :
    core.DoesSame core' := by
  have hbudget : catalog.height record ≤ catalog.height record := Nat.le_refl _
  have hwritten (values : List Value) :=
    (Catalog.writtenLength_sameAtAnyDepth hlength haccepts hacyclic values).eq
  constructor
  · intro σ _
    rw [hcore.decodeUnchecked_eq hbudget, hcore'.decodeUnchecked_eq hbudget]
    exact Catalog.readRecord_eq_of_acyclic haccepts hacyclic hlength _ 0
  · intro σ _
    rw [hcore.decodeChecked_eq hbudget, hcore'.decodeChecked_eq hbudget, Catalog.readChecked,
      Catalog.readChecked, Catalog.readRecord_eq_of_acyclic haccepts hacyclic hlength]
  · intro values
    rw [hcore.encodedLength_eq, hcore'.encodedLength_eq, hwritten]
  · intro κ _ values
    rw [hcore.encode_eq, hcore'.encode_eq, Catalog.write, Catalog.write, hwritten]

section Shallow

variable (hcore : core.GeneratedUnder catalog record) (hacyclic : ¬ catalog.ReachesCycle record)
include hcore hacyclic

theorem GeneratedUnder.decodeUnchecked_neverTooDeep {σ : Type} [Source σ] (source : σ) :
    ∃ outcome after, core.decodeUnchecked.run source = some (outcome, after) ∧
      Unspared CodecError.DepthExceeded outcome := by
  have haccepts := hcore.accepts
  have hread : (core.decodeUnchecked : Decoding σ (List Value)) =
      catalog.readRecord core.limits (catalog.height record) record 0 :=
    (hcore.follows haccepts hacyclic).decodeUnchecked_eq (Nat.le_refl _)
  have hends : (catalog.readRecord core.limits (catalog.height record) record 0).run source ≠
      none :=
    Catalog.readRecord_ends haccepts hacyclic (Nat.le_refl _) 0 source
  obtain ⟨⟨outcome, after⟩, hrun⟩ := Option.ne_none_iff_exists'.1 hends
  refine ⟨outcome, after, hread ▸ hrun, ?_⟩
  rintro error rfl
  have hfound := Catalog.readRecord_finds_of_acyclic haccepts hacyclic _ 0 source error after hrun
  exact hfound.not_depthExceeded

theorem GeneratedUnder.encodedLength_neverTooDeep (values : List Value) :
    Unspared CodecError.DepthExceeded (core.encodedLength values) := by
  have haccepts := hcore.accepts
  rw [(hcore.follows haccepts hacyclic).encodedLength_eq]
  exact (Catalog.writtenLength_sameAtAnyDepth rfl haccepts hacyclic values).unspared

/-- What passes the check fails only where a write does. -/
theorem GeneratedUnder.encode_neverTooDeep {κ : Type} [Sink κ] (values : List Value) (sink : κ) :
    Unspared CodecError.DepthExceeded ((core.encode values).run sink).1 := by
  cases hvalues : core.encodedLength values with
  | error error =>
    rw [encode, Program.run_encode_of_error hvalues]
    exact hvalues ▸ hcore.encodedLength_neverTooDeep hacyclic values
  | ok length =>
    obtain ⟨bytes, hform, -⟩ := Program.exists_rootForm hcore.wellFormed hvalues
    intro error herror hdepth
    obtain ⟨fault, rfl⟩ := hform.exists_fault_of_run_encode (Prod.ext herror rfl)
    exact hdepth

theorem GeneratedUnder.neverTooDeep : core.NeverTooDeep := by
  refine ⟨hcore.decodeUnchecked_neverTooDeep hacyclic, fun source => ?_,
    hcore.encodedLength_neverTooDeep hacyclic, hcore.encode_neverTooDeep hacyclic⟩
  have hunchecked := hcore.decodeUnchecked_neverTooDeep hacyclic source
  cases hsize : core.program.root.fixedSize with
  | none => rwa [decodeChecked, Program.run_decodeChecked_of_none hsize]
  | some size =>
    rw [decodeChecked, Program.run_decodeChecked_of_some hsize]
    split
    · exact ⟨_, source, rfl, unspared_error_iff.2 id⟩
    · exact hunchecked

end Shallow

/-- Nesting without cycles never spends the depth limit.  If a codec is generated for a record that
reaches no cycle, then one can be generated within any limits, with the same program.  All codecs of
the record that allow text and bytes of the same length do the same, whatever nesting depth they
allow, even zero; and however deep the record nests, none of them ever reports that it nests too
deep. -/
theorem GeneratedUnder.same_at_any_depth (hcore : core.GeneratedUnder catalog record)
    (hacyclic : ¬ catalog.ReachesCycle record) :
    (∀ limits, { core with limits }.GeneratedUnder catalog record) ∧
      (∀ core', core'.GeneratedUnder catalog record →
        core.limits.variableLength = core'.limits.variableLength → core.DoesSame core') ∧
      core.NeverTooDeep := by
  refine ⟨hcore.withLimits, fun core' hcore' hlength => ?_, hcore.neverTooDeep hacyclic⟩
  have haccepts := hcore.accepts
  exact (hcore.follows haccepts hacyclic).doesSame (hcore'.follows haccepts hacyclic) haccepts
    hacyclic hlength

end CoreCodec

namespace Sample

/-- A label nests a point, and is read and written even where no nesting depth is allowed. -/
theorem label_at_no_depth :
    labelCore.GeneratedUnder catalog 0 ∧ ¬ catalog.ReachesCycle 0 ∧
      labelCore.limits.variableLength = maxVariableLength ∧
      labelCore.DoesSame { labelCore with limits := ⟨0, maxVariableLength⟩ } ∧
      ∃ after, ({ labelCore with limits := ⟨0, maxVariableLength⟩ } :
        CoreCodec 2).decodeChecked.run (Reader.ofList [0, 1, 7, 0, 2, 97, 98]) =
          some (.ok labelValues, after) := by
  have hacyclic : ¬ catalog.ReachesCycle 0 :=
    Catalog.isInfinitelyNested_eq_false_iff.1 (by decide)
  obtain ⟨hgenerated, hsame, -⟩ := labelCore_generatedUnder.same_at_any_depth hacyclic
  have hshallow := hsame _ (hgenerated ⟨0, maxVariableLength⟩) rfl
  refine ⟨labelCore_generatedUnder, hacyclic, rfl, hshallow, ?_⟩
  rw [← hshallow.decodeChecked]
  exact ⟨_, rfl⟩

end Sample

end RecordCodec
