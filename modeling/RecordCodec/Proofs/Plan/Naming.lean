import RecordCodec.Plan.Encode
import RecordCodec.Proofs.Plan.Faults
import RecordCodec.Proofs.Plan.OpenRecords

/-!
# Names in errors

An error names the record and the field that are at fault.  Without the names, two computations may
come to the same: a field that is read, checked or written under another name fails with the same
error as before, but for the names in it.
-/

namespace RecordCodec

/-- The error with all names of records and fields left empty. -/
def SchemaError.unnamed : SchemaError → SchemaError
  | noFixedWidth _ _ kind => .noFixedWidth "" "" kind
  | boolNotPermitted _ _ => .boolNotPermitted "" ""
  | tooManyVariants _ _ variants => .tooManyVariants "" "" variants
  | invalidOverride _ _ kind override => .invalidOverride "" "" kind override

/-- The error with all names of records and fields left empty. -/
def CodecError.unnamed : CodecError → CodecError
  | schema error => .schema error.unnamed
  | stream error => .stream error
  | cyclicRecord _ => .cyclicRecord ""
  | noFixedLayout _ => .noFixedLayout ""
  | insufficientData _ needed available => .insufficientData "" needed available
  | insufficientCapacity _ needed available => .insufficientCapacity "" needed available
  | ordinalOutOfRange _ _ ordinal variants => .ordinalOutOfRange "" "" ordinal variants
  | invalidValue _ _ fault => .invalidValue "" "" fault
  | invalidUtf8 _ _ => .invalidUtf8 "" ""
  | valueMismatch expected found => .valueMismatch expected found
  | fieldCountMismatch _ expected actual => .fieldCountMismatch "" expected actual
  | limitExceeded kind limit actual => .limitExceeded kind limit actual
  | generationFailure _ detail => .generationFailure "" detail

/-- The outcomes are the same, but for the names in an error. -/
def SameButNames {α : Type} (first second : Except CodecError α) : Prop :=
  first.mapError CodecError.unnamed = second.mapError CodecError.unnamed

namespace SameButNames

variable {α β : Type} {first second : Except CodecError α}

theorem refl (outcome : Except CodecError α) : SameButNames outcome outcome :=
  rfl

theorem error {fault fault' : CodecError} (h : fault.unnamed = fault'.unnamed) :
    SameButNames (.error fault : Except CodecError α) (.error fault') :=
  congrArg Except.error h

theorem bind {next next' : α → Except CodecError β} (hfirst : SameButNames first second)
    (hnext : ∀ value, SameButNames (next value) (next' value)) :
    SameButNames (first >>= next) (second >>= next') := by
  cases first with
  | error fault =>
    cases second with
    | error fault' => exact error (Except.error.inj hfirst)
    | ok value => cases hfirst
  | ok value =>
    cases second with
    | error fault => cases hfirst
    | ok value' =>
      cases hfirst
      exact hnext value

end SameButNames

/-! ## Computations that are alike -/

section Alike

variable {m : Type → Type} [Monad m] {α β γ δ : Type}

/-- The computations do the same, but for the names in an error. -/
def Alike (first second : ExceptT CodecError m α) : Prop :=
  first.adapt CodecError.unnamed = second.adapt CodecError.unnamed

namespace Alike

theorem refl (computation : ExceptT CodecError m α) : Alike computation computation :=
  rfl

variable [LawfulMonad m]

theorem ofExcept {outcome outcome' : Except CodecError α} (h : SameButNames outcome outcome') :
    Alike (ExceptT.mk (pure outcome) : ExceptT CodecError m α) (ExceptT.mk (pure outcome')) := by
  apply ExceptT.ext
  simpa using congrArg pure h

theorem throw {fault fault' : CodecError} (h : fault.unnamed = fault'.unnamed) :
    Alike (MonadExcept.throw fault : ExceptT CodecError m α) (MonadExcept.throw fault') :=
  ofExcept (.error h)

/-- Leaving out names goes through a composition. -/
theorem adapt_bind (first : ExceptT CodecError m α) (next : α → ExceptT CodecError m β) :
    (first >>= next).adapt CodecError.unnamed =
      first.adapt CodecError.unnamed >>= fun value => (next value).adapt CodecError.unnamed := by
  apply ExceptT.ext
  simp only [ExceptT.run_adapt, ExceptT.run_bind, map_bind, bind_map_left]
  congr 1
  funext outcome
  cases outcome with
  | error fault => exact map_pure _ _
  | ok value => rfl

theorem bind {first first' : ExceptT CodecError m α} {next next' : α → ExceptT CodecError m β}
    (hfirst : Alike first first') (hnext : ∀ value, Alike (next value) (next' value)) :
    Alike (first >>= next) (first' >>= next') := by
  rw [Alike, adapt_bind, adapt_bind, hfirst]
  congr 1
  funext value
  exact hnext value

theorem map {first first' : ExceptT CodecError m α} (f : α → β) (h : Alike first first') :
    Alike (f <$> first) (f <$> first') := by
  rw [map_eq_pure_bind, map_eq_pure_bind]
  exact h.bind fun value => refl _

/-- Computations on the items of two lists are alike if those on items side by side are. -/
theorem mapM {f : γ → ExceptT CodecError m α} {g : δ → ExceptT CodecError m α} {lefts : List γ}
    {rights : List δ} (h : List.Forall₂ (fun left right => Alike (f left) (g right)) lefts rights) :
    Alike (lefts.mapM f) (rights.mapM g) := by
  induction h with
  | nil => exact refl _
  | cons hfirst _ ih =>
    rw [List.mapM_cons, List.mapM_cons]
    exact hfirst.bind fun value => ih.bind fun values => refl _

/-- Where one of two readings ends, so does the other, and both leave the same behind. -/
theorem exists_run {σ : Type} {first second : Decoding σ α} (h : Alike first second)
    (hends : first.Ends) (source : σ) : ∃ outcome outcome' after,
      first.run source = some (outcome, after) ∧ second.run source = some (outcome', after) ∧
        SameButNames outcome outcome' := by
  have hrun (decoding : Decoding σ α) : (decoding.adapt CodecError.unnamed).run source =
      (decoding.run source).map fun result =>
        (result.1.mapError CodecError.unnamed, result.2) := by
    change (decoding.run source).bind _ = _
    cases decoding.run source <;> rfl
  obtain ⟨⟨outcome, after⟩, hfirst⟩ := Option.ne_none_iff_exists'.1 (hends source)
  have hsame := hrun second
  rw [← h, hrun first, hfirst] at hsame
  obtain ⟨⟨outcome', after'⟩, hsecond, heq⟩ := Option.map_eq_some_iff.1 hsame.symm
  obtain ⟨houtcome, rfl⟩ := Prod.mk.inj heq
  exact ⟨outcome, outcome', after', hfirst, hsecond, houtcome.symm⟩

/-- Two writings that are alike leave the same sink. -/
theorem run_encoding {κ : Type} {first second : Encoding κ α} (h : Alike first second) (sink : κ) :
    ∃ outcome outcome' after, first.run sink = (outcome, after) ∧
      second.run sink = (outcome', after) ∧ SameButNames outcome outcome' := by
  have hrun : ((first.run sink).1.mapError CodecError.unnamed, (first.run sink).2) =
      ((second.run sink).1.mapError CodecError.unnamed, (second.run sink).2) :=
    congrFun (congrArg ExceptT.run h) sink
  obtain ⟨houtcome, hafter⟩ := Prod.mk.inj hrun
  exact ⟨_, _, (first.run sink).2, rfl, Prod.ext rfl hafter.symm, houtcome⟩

end Alike

end Alike

/-! ## Fields under other names -/

section Leaves

variable {limits : Limits} (record field record' field' : String)

theorem unsignedLength_sameButNames (width : Width) (value : Int64) :
    SameButNames (unsignedLength record field width value)
      (unsignedLength record' field' width value) := by
  rw [unsignedLength, unsignedLength]
  cases narrow value width with
  | ok bytes => exact .refl _
  | error error => exact .error rfl

theorem variableLength_sameButNames (length : Nat) :
    SameButNames (variableLength record field limits length)
      (variableLength record' field' limits length) := by
  rw [variableLength, variableLength]
  split
  · exact .error rfl
  · exact .refl _

theorem Leaf.encodedLength_sameButNames (leaf : Leaf) (value : Value) :
    SameButNames (leaf.encodedLength record field limits value)
      (leaf.encodedLength record' field' limits value) := by
  cases leaf with
  | unsigned32 width =>
    cases value with
    | int32 value => exact unsignedLength_sameButNames record field record' field' width _
    | _ => exact .error rfl
  | unsigned64 width =>
    cases value with
    | int64 value => exact unsignedLength_sameButNames record field record' field' width value
    | _ => exact .error rfl
  | enum variants =>
    cases value with
    | enum ordinal =>
      rw [encodedLength, encodedLength]
      split
      · exact .refl _
      · exact .error rfl
    | _ => exact .error rfl
  | text =>
    cases value with
    | text string => exact variableLength_sameButNames record field record' field' _
    | _ => exact .error rfl
  | bytes =>
    cases value with
    | bytes string => exact variableLength_sameButNames record field record' field' _
    | _ => exact .error rfl
  | _ => cases value <;> exact .refl _

section Writing

variable {κ : Type} [Sink κ]

theorem writeVariable_alike (bytes : List UInt8) :
    Alike (writeVariable record field bytes : Encoding κ Unit)
      (writeVariable record' field' bytes) := by
  rw [writeVariable, writeVariable]
  split
  · exact .throw rfl
  · exact .refl _

theorem Leaf.encode_alike (leaf : Leaf) (value : Value) :
    Alike (leaf.encode record field value : Encoding κ Unit)
      (leaf.encode record' field' value) := by
  cases leaf with
  | enum variants =>
    cases value with
    | enum ordinal =>
      rw [encode, encode]
      split
      · exact .refl _
      · exact .throw rfl
    | _ => exact .throw rfl
  | text =>
    cases value with
    | text string => exact writeVariable_alike record field record' field' _
    | _ => exact .throw rfl
  | bytes =>
    cases value with
    | bytes string => exact writeVariable_alike record field record' field' string
    | _ => exact .throw rfl
  | _ => cases value <;> exact .refl _

end Writing

section Reading

variable {σ : Type} [Source σ]

/-- A number of one or two bytes always fits, so no names come up. -/
theorem Leaf.decode_unsigned32 {width : Width} (hwidth : width ≠ .u32) :
    ((unsigned32 width).decode record field limits : Decoding σ Value) =
      (fun wide => Value.int32 wide.toInt32) <$> .ofReading (Source.readUnsigned width) := by
  apply ExceptT.ext
  funext source
  rw [decode, Decoding.run_bind, Decoding.run_map, Decoding.run_ofReading]
  cases hread : (Source.readUnsigned width).run source with
  | mk outcome reached =>
    cases outcome with
    | error error => rfl
    | ok wide =>
      have hfits := toInt_le_of_readUnsigned hwidth hread
      simp only [Except.mapError, Option.bind_some, hfits, if_true]
      rfl

theorem Leaf.decode_alike {leaf : Leaf} (hleaf : leaf.Admissible) :
    Alike (leaf.decode record field limits : Decoding σ Value)
      (leaf.decode record' field' limits) := by
  cases leaf with
  | unsigned32 width => rw [decode_unsigned32 _ _ hleaf, decode_unsigned32 _ _ hleaf, Alike]
  | enum variants =>
    apply (Alike.refl _).bind
    intro byte
    split
    · exact .refl _
    · exact .throw rfl
  | text =>
    apply (Alike.refl _).bind
    intro string
    cases Utf8.decode? string with
    | none => exact .throw rfl
    | some text => exact .refl _
  | _ => exact .refl _

end Reading

end Leaves

end RecordCodec
