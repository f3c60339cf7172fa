import RecordCodec.Proofs.Codec.Cache
import RecordCodec.Proofs.Codec.Core

/-!
# Truncated encodings

A source that holds the beginning of an encoding, but not all of it, is read up to the cut and no
further: every field before the cut is read as it was written, and the read that meets the cut asks
for more bytes than are left.  Wherever the cut is, in a number, in a length, between a length and
the bytes that it announces or among these, no other fault comes first.
-/

namespace RecordCodec

open LawfulSource

/-! ## Running out of bytes -/

namespace Decoding

variable {σ α β : Type}

/-- The computation fails because it asks for more bytes than are left by then. -/
def RunsOut [Source σ] (decoding : Decoding σ α) (source : σ) : Prop :=
  ∃ requested after, Source.remaining after < requested ∧
    decoding.run source =
      some (.error (.stream (.unexpectedEnd requested (Source.remaining after))), after)

namespace RunsOut

section Composition

variable [Source σ] {source reached : σ} {first : Decoding σ α} {next : α → Decoding σ β}

theorem bind (h : first.RunsOut source) : (first >>= next).RunsOut source := by
  obtain ⟨requested, after, hshort, hrun⟩ := h
  exact ⟨requested, after, hshort, run_bind_of_error hrun⟩

theorem bind_of_ok {value : α} (hfirst : first.run source = some (.ok value, reached))
    (h : (next value).RunsOut reached) : (first >>= next).RunsOut source := by
  obtain ⟨requested, after, hshort, hrun⟩ := h
  exact ⟨requested, after, hshort, (run_bind_of_ok hfirst).trans hrun⟩

theorem map (f : α → β) (h : first.RunsOut source) : (f <$> first).RunsOut source := by
  rw [map_eq_pure_bind]
  exact h.bind

/-- A list is not read to its end if its first item is not. -/
theorem mapM_of_first {γ : Type} {f : γ → Decoding σ β} {item : γ} {items : List γ}
    (h : (f item).RunsOut source) : ((item :: items).mapM f).RunsOut source := by
  rw [List.mapM_cons]
  exact h.bind

theorem mapM_of_others {γ : Type} {f : γ → Decoding σ β} {item : γ} {items : List γ} {value : β}
    (hfirst : (f item).run source = some (.ok value, reached))
    (h : (items.mapM f).RunsOut reached) : ((item :: items).mapM f).RunsOut source := by
  rw [List.mapM_cons]
  exact bind_of_ok hfirst h.bind

end Composition

theorem ofReading [LawfulSource σ] {source : σ} {reading : Reading σ α} {count : Nat}
    (htakes : reading.Takes count) (hshort : (rest source).length < count) :
    (Decoding.ofReading reading).RunsOut source := by
  refine ⟨count, source, (remaining_eq source).trans_lt hshort, ?_⟩
  rw [run_ofReading, run_of_lt htakes hshort, remaining_eq]
  rfl

end RunsOut

end Decoding

/-! ## Sources that hold a part -/

section Parts

variable {σ : Type} [LawfulSource σ] {source : σ} {bytes first second : List UInt8}

/-- The source holds the beginning of `bytes`, but not all of it. -/
structure HoldsPart (source : σ) (bytes : List UInt8) : Prop where
  begins : rest source <+: bytes
  shorter : (rest source).length < bytes.length

/-- A cut is in the first part, or behind it in the second. -/
theorem HoldsPart.cases_append (h : HoldsPart source (first ++ second)) :
    HoldsPart source first ∨
      ∃ unread, rest source = first ++ unread ∧ HoldsPart (skip first.length source) second := by
  rcases Nat.lt_or_ge (rest source).length first.length with hlt | hle
  · have hfirst := List.prefix_of_prefix_length_le h.begins (List.prefix_append _ _) hlt.le
    exact .inl ⟨hfirst, hlt⟩
  · obtain ⟨unread, hrest⟩ :=
      List.prefix_of_prefix_length_le (List.prefix_append first second) h.begins hle
    have hskip : rest (skip first.length source) = unread := rest_skip_of_rest_eq hrest.symm
    have hbegins := h.begins
    have hshorter := h.shorter
    rw [← hrest] at hbegins hshorter
    refine .inr ⟨unread, hrest.symm, ?_, ?_⟩
    · rw [hskip]
      exact (List.prefix_append_right_inj first).1 hbegins
    · rw [hskip]
      simpa using hshorter

end Parts

/-! ## Reading up to the cut -/

section Leaves

variable {σ α : Type} [LawfulSource σ] {source : σ} {limits : Limits} {record field : String}

open Decoding

/-- A read of all the bytes of a number meets the cut inside it. -/
theorem ofReading_runsOut {reading : Reading σ α} {count number : Nat}
    (htakes : reading.Takes count) (hpart : HoldsPart source (BigEndian.encode count number)) :
    (Decoding.ofReading reading).RunsOut source := by
  have hshort := hpart.shorter
  rw [BigEndian.length_encode] at hshort
  exact .ofReading htakes hshort

/-- A cut in the length is met by reading the length; behind it, the whole length is read and
allowed, and the cut is met by reading as many bytes. -/
theorem readVariable_runsOut {string : List UInt8}
    (hlength : string.length ≤ limits.effectiveLength)
    (hpart : HoldsPart source (BigEndian.encode 2 string.length ++ string)) :
    (readVariable limits).RunsOut source := by
  rcases hpart.cases_append with hannounced | ⟨unread, hrest, hstring⟩
  · exact (ofReading_runsOut Source.takes_readUInt16 hannounced).bind
  · have hword : string.length < UInt16.size :=
      Nat.lt_succ_of_le (Nat.le_trans hlength (effectiveLength_le limits))
    have hannounced : (UInt16.ofNat string.length).toNat = string.length :=
      UInt16.toNat_ofNat_of_lt hword
    have hread : (Decoding.ofReading Source.readUInt16).run source =
        some (.ok (UInt16.ofNat string.length), skip 2 source) := by
      rw [Decoding.ofReading_eq_ok_iff, Source.readUInt16_eq_ok_iff, hannounced]
      exact take_encode_of_rest_eq hrest
    have hshort := hstring.shorter
    rw [BigEndian.length_encode] at hshort
    refine RunsOut.bind_of_ok hread ?_
    simp only [hannounced, Nat.not_lt.2 hlength, if_false]
    exact .ofReading (Source.takes_readBytes string.length) hshort

/-- A leaf that is cut anywhere is not read to its end, and no other fault is found in it. -/
theorem Leaf.WireForm.runsOut {leaf : Leaf} {value : Value} {bytes : List UInt8}
    (hform : leaf.WireForm limits value bytes) (hpart : HoldsPart source bytes) :
    (leaf.decode record field limits).RunsOut source := by
  cases hform with
  | int8 => exact (ofReading_runsOut Source.takes_readInt8 hpart).map _
  | int16 => exact (ofReading_runsOut Source.takes_readInt16 hpart).map _
  | int32 => exact (ofReading_runsOut Source.takes_readInt32 hpart).map _
  | int64 => exact (ofReading_runsOut Source.takes_readInt64 hpart).map _
  | float32 => exact (ofReading_runsOut Source.takes_readUInt32 hpart).map _
  | float64 => exact (ofReading_runsOut Source.takes_readUInt64 hpart).map _
  | char16 => exact (ofReading_runsOut Source.takes_readUInt16 hpart).map _
  | @unsigned32 width => exact (ofReading_runsOut (Source.takes_readUnsigned width) hpart).bind
  | @unsigned64 width => exact (ofReading_runsOut (Source.takes_readUnsigned width) hpart).map _
  | enum => exact (ofReading_runsOut Source.takes_readUInt8 hpart).bind
  | text hlength => exact (readVariable_runsOut hlength hpart).bind
  | bytes hlength => exact (readVariable_runsOut hlength hpart).map _

end Leaves

section Records

variable {σ ρ : Type} [LawfulSource σ] {planOf : ρ → Plan ρ} {limits : Limits}

open Decoding

variable (σ) in
/-- Steps that are cut anywhere are not read to their end by any budget that is large enough, and no
other fault is found in them. -/
theorem exists_budget_of_holdsPart {depth : Nat} {steps : List (Step ρ)} {values : List Value}
    {bytes : List UInt8} (hform : WireForm planOf limits depth steps values bytes) :
    ∃ least, ∀ budget ≥ least, ∀ (record : String) {source : σ}, HoldsPart source bytes →
      (steps.mapM (decodeStep planOf limits (decodeRecord planOf limits budget) record
        depth)).RunsOut source := by
  induction hform with
  | nil depth => exact ⟨0, fun _ _ _ _ hpart => absurd hpart.shorter (Nat.not_lt_zero _)⟩
  | @leaf depth step steps kind value values bytes others hwire hvalue _ ih =>
    obtain ⟨least, hleast⟩ := ih
    refine ⟨least, fun budget hbudget record source hpart => ?_⟩
    rcases hpart.cases_append with hcut | ⟨unread, hrest, hcut⟩
    · apply RunsOut.mapM_of_first
      rw [decodeStep_of_leaf hwire]
      exact hvalue.runsOut hcut
    · have hstep : (decodeStep planOf limits (decodeRecord planOf limits budget) record depth
          step).run source = some (.ok value, skip bytes.length source) := by
        rw [decodeStep_of_leaf hwire]
        exact Leaf.decode_of_rest_eq hvalue hrest
      exact .mapM_of_others hstep (hleast budget hbudget record hcut)
  | @nested depth inner step steps target fields values bytes others hwire henter hfields _ ihfields
      ih =>
    obtain ⟨leastCut, hleastCut⟩ := ihfields
    obtain ⟨leastWhole, hleastWhole⟩ := exists_budget_of_wireForm σ hfields
    obtain ⟨least, hleast⟩ := ih
    -- One record more is open while the fields of the nested one are read.
    refine ⟨max (max leastCut leastWhole + 1) least, fun budget hbudget record source hpart => ?_⟩
    obtain ⟨smaller, rfl⟩ : ∃ smaller, budget = smaller + 1 := ⟨budget - 1, by omega⟩
    rcases hpart.cases_append with hcut | ⟨unread, hrest, hcut⟩
    · apply RunsOut.mapM_of_first
      rw [decodeStep_of_nested hwire, henter]
      have hnested : (decodeRecord planOf limits (smaller + 1) target inner).RunsOut source :=
        hleastCut smaller (by omega) (planOf target).name hcut
      exact hnested.map _
    · have hnested : (decodeRecord planOf limits (smaller + 1) target inner).run source =
          some (.ok fields, skip bytes.length source) :=
        hleastWhole smaller (by omega) (planOf target).name hrest
      have hstep : (decodeStep planOf limits (decodeRecord planOf limits (smaller + 1)) record depth
          step).run source = some (.ok (.record fields), skip bytes.length source) :=
        (decodeStep_nested_eq_ok_iff hwire).2 ⟨inner, fields, henter, hnested, rfl⟩
      exact .mapM_of_others hstep (hleast (smaller + 1) (by omega) record hcut)

end Records

namespace CoreCodec

variable {n : Nat} {core : CoreCodec n} {values : List Value} {σ : Type} [LawfulSource σ]
variable {source : σ} {bytes : List UInt8}

/-- Reading a cut wire form of the root record runs out of bytes. -/
theorem runsOut_of_rootForm (hprogram : core.program.WellFormed)
    (hform : core.program.RootForm core.limits values bytes) (hpart : HoldsPart source bytes) :
    core.decodeUnchecked.RunsOut source := by
  obtain ⟨least, hleast⟩ := exists_budget_of_holdsPart σ hform
  have hrunsOut : (decodeRecord core.program.plan core.limits (least + 1) 0 0).RunsOut source :=
    hleast least (Nat.le_refl least) core.program.root.name hpart
  obtain ⟨requested, after, hshort, hrun⟩ := hrunsOut
  refine ⟨requested, after, hshort, ?_⟩
  exact Program.run_decodeUnchecked_of_decodeRecord hprogram.inhabited hprogram.inRange hrun

/-- Truncated input is always recognised as truncated.  Accepted values have an encoding; of any
part of it that is not the whole, reading fails because more bytes are asked for than are left, and
if the record has a fixed size, then its fixed codec refuses the part before anything is read; this
supposes that the bytes of the encoding can be counted, as those of values in memory can. -/
theorem decode_of_part (hcore : core.Generated) {length : Nat}
    (hlength : core.encodedLength values = .ok length) :
    ∃ encoding, core.EncodesTo values encoding ∧ encoding.length = length ∧
      ∀ part, part <+: encoding → part ≠ encoding →
        ∀ {σ : Type} [LawfulSource σ] (source : σ), rest source = part →
          core.decodeUnchecked.RunsOut source ∧
          ∀ size, core.fixedSize = some size → length ≤ maxCount →
            ∀ shared : SharedCore n, shared.core = core →
            ∃ codec, FixedCodec.ofCore shared = .ok codec ∧ ∀ types : TypeTable n,
              (codec.decode types).run source =
                some (.error (.insufficientData core.recordName size part.length), source) := by
  have hprogram := hcore.wellFormed
  obtain ⟨encoding, hform, hencodes, rfl⟩ := exists_encodesTo hprogram hlength
  refine ⟨encoding, hencodes, rfl, ?_⟩
  rintro part hbegins hne σ _ source rfl
  have hshorter : (rest source).length < encoding.length :=
    lt_of_le_of_ne hbegins.length_le fun heq => hne (hbegins.eq_of_length heq)
  refine ⟨runsOut_of_rootForm hprogram hform ⟨hbegins, hshorter⟩, ?_⟩
  rintro size hsize hcount shared rfl
  rw [hform.length_eq_of_fixedSize hprogram.sums hsize hcount, ← remaining_eq] at hshorter
  refine ⟨⟨shared, size⟩, ?_, fun types => ?_⟩
  · rw [FixedCodec.ofCore, hsize]
  · rw [FixedCodec.run_decode, if_pos hshorter, remaining_eq]
    rfl

end CoreCodec

namespace Sample

def pointCore : CoreCodec 2 where
  record := 1
  program := { plans := #[pointPlan] }
  limits := .standard

theorem pointCore_generated : pointCore.Generated := by
  refine ⟨catalog, _, .standard, .empty, .schema .empty catalog 1 rfl, .empty, ?_⟩
  with_unfolding_all rfl

/-- A point takes three bytes; of two of them a reading runs out, and a fixed codec refuses them. -/
theorem point_cut :
    pointCore.EncodesTo [.int16 1, .int32 7] [0, 1, 7] ∧
      pointCore.decodeUnchecked.RunsOut (Reader.ofList [0, 1]) ∧
      ∃ codec, FixedCodec.ofCore ⟨0, 0, pointCore⟩ = .ok codec ∧ ∀ types : TypeTable 2,
        (codec.decode types).run (Cursor.mk #[9, 0, 1] 1) =
          some (.error (.insufficientData "Point" 3 2), Cursor.mk #[9, 0, 1] 1) := by
  have hrange : 0 ≤ (7 : Int32).toInt ∧ (7 : Int32).toInt ≤ Width.u8.maxValue := by decide
  have hform : pointCore.program.RootForm .standard [.int16 1, .int32 7] [0, 1, 7] :=
    .leaf rfl (.int16 1) (.leaf rfl (.unsigned32 hrange) (.nil 0))
  have hencodes := CoreCodec.encodesTo_of_rootForm hform
  obtain ⟨encoding, hencoding, -, hpart⟩ :=
    CoreCodec.decode_of_part pointCore_generated hencodes.encodedLength_eq
  obtain rfl := hencodes.unique hencoding
  have hbegins : ([0, 1] : List UInt8) <+: [0, 1, 7] := ⟨[7], rfl⟩
  obtain ⟨hreader, -⟩ := hpart [0, 1] hbegins (by decide) (Reader.ofList [0, 1]) rfl
  obtain ⟨-, hcursor⟩ := hpart [0, 1] hbegins (by decide) (Cursor.mk #[9, 0, 1] 1) rfl
  exact ⟨hencodes, hreader, hcursor 3 rfl (by decide) ⟨0, 0, pointCore⟩ rfl⟩

end Sample

end RecordCodec
