import RecordCodec.Proofs.Stream.Reading
import RecordCodec.Proofs.Plan.Decoding
import RecordCodec.Proofs.Wire.Form

/-!
# Reading wire forms

Reading by a plan and the wire form agree in both directions.  What a read accepts is a wire form of
the values that it gives, whatever the source; and on a source that holds its bytes, a wire form
that comes next is read back, if the budget allows for the records nested in it.
-/

namespace RecordCodec

open BigEndian

/-! ## Leaves -/

section Acceptance

variable {σ α : Type} [Source σ] {source after : σ} {limits : Limits} {record field : String}

/-- A leaf that is read as one number. -/
private theorem reads_of_number {leaf : Leaf} {value : Value} {reading : Reading σ α}
    {make : α → Value} {count : Nat} {form : α → List UInt8}
    (hread : ∀ {inner}, reading.run source = (.ok inner, after) →
      leaf.WireForm limits (make inner) (form inner) ∧
        Source.take count source = (.ok (form inner), after))
    (h : (make <$> Decoding.ofReading reading).run source = some (.ok value, after)) :
    ∃ bytes, leaf.WireForm limits value bytes ∧ Source.Reads source bytes after := by
  obtain ⟨inner, hinner, rfl⟩ := Decoding.map_eq_ok_iff.1 h
  obtain ⟨hform, htake⟩ := hread (Decoding.ofReading_eq_ok_iff.1 hinner)
  exact ⟨form inner, hform, .single htake⟩

/-- A length is read in two bytes; it is refused before the bytes that it announces are read. -/
theorem reads_of_readVariable {string : List UInt8}
    (h : (readVariable limits).run source = some (.ok string, after)) :
    string.length ≤ limits.effectiveLength ∧
      Source.Reads source (encode 2 string.length ++ string) after := by
  obtain ⟨announced, reached, hlength, hnext⟩ := Decoding.bind_eq_ok_iff.1 h
  have htakeLength := Source.readUInt16_eq_ok_iff.1 (Decoding.ofReading_eq_ok_iff.1 hlength)
  by_cases hlimit : limits.effectiveLength < announced.toNat
  · simp only [hlimit, if_true] at hnext
    cases hnext
  · simp only [hlimit, if_false] at hnext
    have htake : Source.take announced.toNat reached = (.ok string, after) :=
      Decoding.ofReading_eq_ok_iff.1 hnext
    have hstring : string.length = announced.toNat :=
      Source.length_of_take (congrArg Prod.fst htake)
    rw [hstring]
    exact ⟨Nat.not_lt.1 hlimit, .step htakeLength (.single htake)⟩

/-- A 64-bit number that fits 32 bits keeps its value there. -/
theorem toInt_toInt32_of_le {wide : Int64} (hnonneg : 0 ≤ wide.toInt)
    (hfits : wide.toInt ≤ Int32.maxValue.toInt) : wide.toInt32.toInt = wide.toInt := by
  rw [Int32.toInt_maxValue] at hfits
  rw [Int64.toInt_toInt32]
  apply Int.bmod_eq_of_le <;> omega

/-- What is read as a leaf is a wire form of the value that it gives. -/
theorem Leaf.reads_of_decode {leaf : Leaf} {value : Value}
    (h : (leaf.decode record field limits).run source = some (.ok value, after)) :
    ∃ bytes, leaf.WireForm limits value bytes ∧ Source.Reads source bytes after := by
  cases leaf with
  | int8 => exact reads_of_number (fun h => ⟨.int8 _, Source.readInt8_eq_ok_iff.1 h⟩) h
  | int16 => exact reads_of_number (fun h => ⟨.int16 _, Source.readInt16_eq_ok_iff.1 h⟩) h
  | int32 => exact reads_of_number (fun h => ⟨.int32 _, Source.readInt32_eq_ok_iff.1 h⟩) h
  | int64 => exact reads_of_number (fun h => ⟨.int64 _, Source.readInt64_eq_ok_iff.1 h⟩) h
  | float32 => exact reads_of_number (fun h => ⟨.float32 _, Source.readUInt32_eq_ok_iff.1 h⟩) h
  | float64 => exact reads_of_number (fun h => ⟨.float64 _, Source.readUInt64_eq_ok_iff.1 h⟩) h
  | char16 => exact reads_of_number (fun h => ⟨.char16 _, Source.readUInt16_eq_ok_iff.1 h⟩) h
  | unsigned32 width =>
    obtain ⟨wide, reached, hwide, hnext⟩ := Decoding.bind_eq_ok_iff.1 h
    obtain ⟨hrange, htake⟩ :=
      Source.readUnsigned_eq_ok_iff.1 (Decoding.ofReading_eq_ok_iff.1 hwide)
    by_cases hfits : wide.toInt ≤ Int32.maxValue.toInt
    · simp only [hfits, if_true] at hnext
      cases hnext
      have hnarrow := toInt_toInt32_of_le hrange.1 hfits
      rw [← hnarrow] at hrange htake
      exact ⟨_, .unsigned32 hrange, .single htake⟩
    · simp only [hfits, if_false] at hnext
      cases hnext
  | unsigned64 width =>
    exact reads_of_number (fun h =>
      ⟨.unsigned64 (Source.readUnsigned_eq_ok_iff.1 h).1, (Source.readUnsigned_eq_ok_iff.1 h).2⟩) h
  | enum variants =>
    obtain ⟨byte, reached, hbyte, hnext⟩ := Decoding.bind_eq_ok_iff.1 h
    have htake := Source.readUInt8_eq_ok_iff.1 (Decoding.ofReading_eq_ok_iff.1 hbyte)
    by_cases hvariant : byte.toNat < variants
    · simp only [hvariant, if_true] at hnext
      cases hnext
      exact ⟨_, .enum hvariant byte.toNat_lt, .single htake⟩
    · simp only [hvariant, if_false] at hnext
      cases hnext
  | text =>
    obtain ⟨string, reached, hstring, hnext⟩ := Decoding.bind_eq_ok_iff.1 h
    obtain ⟨hlength, hreads⟩ := reads_of_readVariable hstring
    cases hdecode : Utf8.decode? string with
    | none =>
      simp only [hdecode] at hnext
      cases hnext
    | some text =>
      simp only [hdecode] at hnext
      cases hnext
      obtain rfl : Utf8.encode text = string := Utf8.decode?_eq_some_iff.1 hdecode
      exact ⟨_, .text hlength, hreads⟩
  | bytes =>
    obtain ⟨string, hstring, rfl⟩ := Decoding.map_eq_ok_iff.1 h
    obtain ⟨hlength, hreads⟩ := reads_of_readVariable hstring
    exact ⟨_, .bytes hlength, hreads⟩

end Acceptance

section Recovery

variable {σ α : Type} [LawfulSource σ] {source : σ} {limits : Limits} {record field : String}
variable {bytes unread : List UInt8}

open LawfulSource

theorem take_encode_of_rest_eq {count number : Nat}
    (hrest : rest source = encode count number ++ unread) :
    Source.take count source = (.ok (encode count number), skip count source) := by
  have htake := take_of_rest_eq hrest
  rwa [length_encode] at htake

theorem readVariable_of_rest_eq {string : List UInt8}
    (hlength : string.length ≤ limits.effectiveLength)
    (hrest : rest source = encode 2 string.length ++ string ++ unread) :
    (readVariable limits).run source =
      some (.ok string, skip (encode 2 string.length ++ string).length source) := by
  rw [List.append_assoc] at hrest
  have hword : string.length < UInt16.size :=
    Nat.lt_succ_of_le (Nat.le_trans hlength (Nat.min_le_right _ _))
  have hannounced : (UInt16.ofNat string.length).toNat = string.length :=
    UInt16.toNat_ofNat_of_lt hword
  have htakeLength := take_encode_of_rest_eq hrest
  have htake := take_of_rest_eq ((rest_skip_of_rest_eq hrest).trans rfl)
  rw [length_encode, skip_skip] at htake
  rw [List.length_append, length_encode]
  refine Decoding.bind_eq_ok_iff.2 ⟨UInt16.ofNat string.length, skip 2 source, ?_, ?_⟩
  · rw [Decoding.ofReading_eq_ok_iff, Source.readUInt16_eq_ok_iff, hannounced]
    exact htakeLength
  · simp only [hannounced, Nat.not_lt.2 hlength, if_false]
    exact Decoding.ofReading_eq_ok_iff.2 htake

/-- A number that comes next is read back as a leaf. -/
private theorem run_number_of_rest_eq {reading : Reading σ α} {make : α → Value}
    {count number : Nat} {inner : α}
    (hread : ∀ {after}, Source.take count source = (.ok (encode count number), after) →
      reading.run source = (.ok inner, after))
    (hrest : rest source = encode count number ++ unread) :
    (make <$> Decoding.ofReading reading).run source =
      some (.ok (make inner), skip (encode count number).length source) := by
  rw [length_encode]
  have hrun := hread (take_encode_of_rest_eq hrest)
  exact Decoding.map_eq_ok_iff.2 ⟨inner, Decoding.ofReading_eq_ok_iff.2 hrun, rfl⟩

/-- A wire form of a leaf that comes next is read back. -/
theorem Leaf.decode_of_rest_eq {leaf : Leaf} {value : Value}
    (hform : leaf.WireForm limits value bytes) (hrest : rest source = bytes ++ unread) :
    (leaf.decode record field limits).run source =
      some (.ok value, skip bytes.length source) := by
  cases hform with
  | int8 => exact run_number_of_rest_eq Source.readInt8_eq_ok_iff.2 hrest
  | int16 => exact run_number_of_rest_eq Source.readInt16_eq_ok_iff.2 hrest
  | int32 => exact run_number_of_rest_eq Source.readInt32_eq_ok_iff.2 hrest
  | int64 => exact run_number_of_rest_eq Source.readInt64_eq_ok_iff.2 hrest
  | float32 => exact run_number_of_rest_eq Source.readUInt32_eq_ok_iff.2 hrest
  | float64 => exact run_number_of_rest_eq Source.readUInt64_eq_ok_iff.2 hrest
  | char16 => exact run_number_of_rest_eq Source.readUInt16_eq_ok_iff.2 hrest
  | @unsigned32 width value hrange =>
    have hwide : value.toInt64.toInt = value.toInt := Int32.toInt_toInt64 value
    have hfits : value.toInt64.toInt ≤ Int32.maxValue.toInt := hwide ▸ Int32.toInt_le value
    rw [length_encode]
    refine Decoding.bind_eq_ok_iff.2 ⟨value.toInt64, skip width.bytes source, ?_, ?_⟩
    · rw [Decoding.ofReading_eq_ok_iff, Source.readUnsigned_eq_ok_iff, hwide]
      exact ⟨hrange, take_encode_of_rest_eq hrest⟩
    · simp only [hfits, if_true]
      rw [Int32.toInt32_toInt64]
      rfl
  | unsigned64 hrange =>
    exact run_number_of_rest_eq
      (fun htake => Source.readUnsigned_eq_ok_iff.2 ⟨hrange, htake⟩) hrest
  | @enum variants ordinal hvariant hbyte =>
    have hordinal : (UInt8.ofNat ordinal).toNat = ordinal := UInt8.toNat_ofNat_of_lt hbyte
    rw [length_encode]
    refine Decoding.bind_eq_ok_iff.2 ⟨UInt8.ofNat ordinal, skip 1 source, ?_, ?_⟩
    · rw [Decoding.ofReading_eq_ok_iff, Source.readUInt8_eq_ok_iff, hordinal]
      exact take_encode_of_rest_eq hrest
    · simp only [hordinal, hvariant, if_true]
      rfl
  | @text string hlength =>
    refine Decoding.bind_eq_ok_iff.2 ⟨_, _, readVariable_of_rest_eq hlength hrest, ?_⟩
    simp only [Utf8.decode?_encode]
    rfl
  | bytes hlength =>
    exact Decoding.map_eq_ok_iff.2 ⟨_, readVariable_of_rest_eq hlength hrest, rfl⟩

end Recovery

/-! ## Records -/

section Records

variable {σ ρ : Type} {planOf : ρ → Plan ρ} {limits : Limits}

theorem wireForm_of_mapM [Source σ] {nested : ρ → (depth : Nat) → Decoding σ (List Value)}
    (hnested : ∀ {target : ρ} {depth : Nat} {source after : σ} {values : List Value},
      (nested target depth).run source = some (.ok values, after) →
      ∃ bytes, WireForm planOf limits depth (planOf target).steps values bytes ∧
        Source.Reads source bytes after)
    {record : String} {depth : Nat} {steps : List (Step ρ)} {source after : σ}
    {values : List Value}
    (h : (steps.mapM (decodeStep planOf limits nested record depth)).run source =
      some (.ok values, after)) :
    ∃ bytes, WireForm planOf limits depth steps values bytes ∧
      Source.Reads source bytes after := by
  induction steps generalizing source values with
  | nil =>
    rw [List.mapM_nil] at h
    cases h
    exact ⟨[], .nil depth, .done _⟩
  | cons step steps ih =>
    obtain ⟨value, others, reached, rfl, hvalue, hothers⟩ := Decoding.mapM_cons_eq_ok_iff.1 h
    obtain ⟨rest, hrestForm, hrestReads⟩ := ih hothers
    cases hwire : step.wire with
    | leaf kind =>
      rw [decodeStep_of_leaf hwire] at hvalue
      obtain ⟨bytes, hform, hreads⟩ := Leaf.reads_of_decode hvalue
      exact ⟨bytes ++ rest, .leaf hwire hform hrestForm, hreads.append hrestReads⟩
    | nested target =>
      obtain ⟨inner, fields, henter, hfields, rfl⟩ :=
        (decodeStep_nested_eq_ok_iff hwire).1 hvalue
      obtain ⟨bytes, hform, hreads⟩ := hnested hfields
      exact ⟨bytes ++ rest, .nested hwire henter hform hrestForm, hreads.append hrestReads⟩

/-- What is read as a record is a wire form of the values that it gives, whatever the source. -/
theorem wireForm_of_decodeRecord [Source σ] {budget : Nat} {record : ρ} {depth : Nat}
    {source after : σ} {values : List Value}
    (h : (decodeRecord planOf limits budget record depth).run source =
      some (.ok values, after)) :
    ∃ bytes, WireForm planOf limits depth (planOf record).steps values bytes ∧
      Source.Reads source bytes after := by
  induction budget generalizing record depth source after values with
  | zero => cases h
  | succ budget ih => exact wireForm_of_mapM ih h

open LawfulSource

variable (σ) in
/-- A wire form that comes next is read back by every budget that is large enough. -/
theorem exists_budget_of_wireForm [LawfulSource σ] {depth : Nat} {steps : List (Step ρ)}
    {values : List Value} {bytes : List UInt8}
    (hform : WireForm planOf limits depth steps values bytes) :
    ∃ least, ∀ budget ≥ least, ∀ (record : String) {source : σ} {unread : List UInt8},
      rest source = bytes ++ unread →
      (steps.mapM (decodeStep planOf limits (decodeRecord planOf limits budget) record depth)).run
        source = some (.ok values, skip bytes.length source) := by
  induction hform with
  | nil depth =>
    refine ⟨0, fun budget _ record source unread _ => ?_⟩
    rw [List.mapM_nil, List.length_nil, skip_zero]
    rfl
  | @leaf depth step steps kind value values bytes others hwire hvalue _ ih =>
    obtain ⟨least, hleast⟩ := ih
    refine ⟨least, fun budget hbudget record source unread hrest => ?_⟩
    rw [List.append_assoc] at hrest
    have hothers := hleast budget hbudget record (rest_skip_of_rest_eq hrest)
    rw [skip_skip, ← List.length_append] at hothers
    refine Decoding.mapM_cons_eq_ok_iff.2 ⟨value, values, _, rfl, ?_, hothers⟩
    rw [decodeStep_of_leaf hwire]
    exact Leaf.decode_of_rest_eq hvalue hrest
  | @nested depth inner step steps target fields values bytes others hwire henter _ _ ihfields ih =>
    obtain ⟨leastFields, hleastFields⟩ := ihfields
    obtain ⟨least, hleast⟩ := ih
    -- One record more is open while the fields of the nested one are read.
    refine ⟨max (leastFields + 1) least, fun budget hbudget record source unread hrest => ?_⟩
    rw [List.append_assoc] at hrest
    obtain ⟨smaller, rfl⟩ : ∃ smaller, budget = smaller + 1 := ⟨budget - 1, by omega⟩
    have hfields : (decodeRecord planOf limits (smaller + 1) target inner).run source =
        some (.ok fields, skip bytes.length source) :=
      hleastFields smaller (by omega) (planOf target).name hrest
    have hothers := hleast (smaller + 1) (by omega) record (rest_skip_of_rest_eq hrest)
    rw [skip_skip, ← List.length_append] at hothers
    refine Decoding.mapM_cons_eq_ok_iff.2 ⟨.record fields, values, _, rfl, ?_, hothers⟩
    exact (decodeStep_nested_eq_ok_iff hwire).2 ⟨inner, fields, henter, hfields, rfl⟩

end Records

end RecordCodec
