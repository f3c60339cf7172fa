import RecordCodec.Proofs.Codec.Core
import RecordCodec.Proofs.CyclicRecords
import RecordCodec.Proofs.Layout.Reference

/-!
# Constant length

A record that reaches no cycle has a fixed size exactly if all its encodings have one length.  They
have it if the widths of all fields are known, inwards to the last nested record.  For the converse,
values are put together from below: every field has some, and one text or byte field, however deep,
has shorter and longer ones.
-/

namespace RecordCodec

variable {n : Nat}

/-! ## Values of leaves -/

section Leaves

variable {limits : Limits} {leaf : Leaf}

/-- Every leaf has values, except an enum without variants. -/
theorem Leaf.exists_conforming (limits : Limits)
    (hvariants : ∀ variants, leaf = .enum variants → 0 < variants) :
    ∃ value bytes, leaf.WireForm limits value bytes := by
  cases leaf with
  | int8 => exact ⟨_, _, .int8 0⟩
  | int16 => exact ⟨_, _, .int16 0⟩
  | int32 => exact ⟨_, _, .int32 0⟩
  | int64 => exact ⟨_, _, .int64 0⟩
  | float32 => exact ⟨_, _, .float32 0⟩
  | float64 => exact ⟨_, _, .float64 0⟩
  | char16 => exact ⟨_, _, .char16 0⟩
  | unsigned32 width =>
    have hzero : 0 ≤ (0 : Int32).toInt ∧ (0 : Int32).toInt ≤ width.maxValue := by simp
    exact ⟨_, _, .unsigned32 hzero⟩
  | unsigned64 width =>
    have hzero : 0 ≤ (0 : Int64).toInt ∧ (0 : Int64).toInt ≤ width.maxValue := by simp
    exact ⟨_, _, .unsigned64 hzero⟩
  | enum variants => exact ⟨_, _, .enum (hvariants variants rfl) (by decide)⟩
  | text =>
    have hempty : (Utf8.encode "").length ≤ limits.effectiveLength := Nat.zero_le _
    exact ⟨_, _, .text hempty⟩
  | bytes =>
    have hempty : ([] : List UInt8).length ≤ limits.effectiveLength := Nat.zero_le _
    exact ⟨_, _, .bytes hempty⟩

/-- If the limits allow one byte of text or bytes, these have shorter and longer values. -/
theorem Leaf.exists_longer (hlimits : 1 ≤ limits.effectiveLength) (hwidth : leaf.width? = none) :
    ∃ short shortBytes long longBytes, leaf.WireForm limits short shortBytes ∧
      leaf.WireForm limits long longBytes ∧ shortBytes.length < longBytes.length := by
  cases leaf with
  | text =>
    have hempty : (Utf8.encode "").length ≤ limits.effectiveLength := Nat.zero_le _
    have hletter : (Utf8.encode "a").length ≤ limits.effectiveLength := hlimits
    exact ⟨_, _, _, _, .text hempty, .text hletter, by decide⟩
  | bytes =>
    have hempty : ([] : List UInt8).length ≤ limits.effectiveLength := Nat.zero_le _
    have hbyte : [(0 : UInt8)].length ≤ limits.effectiveLength := hlimits
    exact ⟨_, _, _, _, .bytes hempty, .bytes hbyte, by decide⟩
  | _ => cases hwidth

end Leaves

/-! ## Values of steps -/

section Steps

variable {ρ : Type} {planOf : ρ → Plan ρ} {limits : Limits} {depth inner : Nat}
variable {step : Step ρ} {steps others : List (Step ρ)} {first? others? width? : Option Nat}

/-- Some values conform to the steps, and where no width is known, some take more bytes than
others. -/
structure Stretches (planOf : ρ → Plan ρ) (limits : Limits) (depth : Nat) (steps : List (Step ρ))
    (width? : Option Nat) : Prop where
  conforming : ∃ values bytes, WireForm planOf limits depth steps values bytes
  longer : width? = none → ∃ short shortBytes long longBytes,
    WireForm planOf limits depth steps short shortBytes ∧
      WireForm planOf limits depth steps long longBytes ∧ shortBytes.length < longBytes.length

namespace Stretches

theorem nil (width : Nat) : Stretches planOf limits depth [] (some width) where
  conforming := ⟨[], [], .nil depth⟩
  longer := nofun

/-- It is enough that one of two parts varies in length; the other may have any values. -/
theorem append (hfirst : Stretches planOf limits depth steps first?)
    (hothers : Stretches planOf limits depth others others?)
    (hwidth : width? = none → first? = none ∨ others? = none) :
    Stretches planOf limits depth (steps ++ others) width? where
  conforming := by
    obtain ⟨values, bytes, hform⟩ := hfirst.conforming
    obtain ⟨otherValues, otherBytes, hother⟩ := hothers.conforming
    exact ⟨_, _, hform.append hother⟩
  longer hnone := by
    rcases hwidth hnone with hfirst_none | hothers_none
    · obtain ⟨_, _, _, _, hshort, hlong, hlt⟩ := hfirst.longer hfirst_none
      obtain ⟨_, _, hother⟩ := hothers.conforming
      refine ⟨_, _, _, _, hshort.append hother, hlong.append hother, ?_⟩
      simpa using hlt
    · obtain ⟨_, _, hform⟩ := hfirst.conforming
      obtain ⟨_, _, _, _, hshort, hlong, hlt⟩ := hothers.longer hothers_none
      refine ⟨_, _, _, _, hform.append hshort, hform.append hlong, ?_⟩
      simpa using hlt

theorem leaf {kind : Leaf} (hwire : step.wire = .leaf kind) (hlimits : 1 ≤ limits.effectiveLength)
    (hvariants : ∀ variants, kind = .enum variants → 0 < variants) :
    Stretches planOf limits depth [step] kind.width? where
  conforming := by
    obtain ⟨value, bytes, hvalue⟩ := kind.exists_conforming limits hvariants
    exact ⟨_, _, .leaf hwire hvalue (.nil depth)⟩
  longer hnone := by
    obtain ⟨_, _, _, _, hshort, hlong, hlt⟩ := Leaf.exists_longer hlimits hnone
    refine ⟨_, _, _, _, .leaf hwire hshort (.nil depth), .leaf hwire hlong (.nil depth), ?_⟩
    simpa using hlt

theorem nested {target : ρ} (hwire : step.wire = .nested target)
    (henter : limits.enter (planOf target).cyclic depth = .ok inner)
    (hfields : Stretches planOf limits inner (planOf target).steps width?) :
    Stretches planOf limits depth [step] width? where
  conforming := by
    obtain ⟨values, bytes, hform⟩ := hfields.conforming
    exact ⟨_, _, .nested hwire henter hform (.nil depth)⟩
  longer hnone := by
    obtain ⟨_, _, _, _, hshort, hlong, hlt⟩ := hfields.longer hnone
    refine ⟨_, _, _, _, .nested hwire henter hshort (.nil depth),
      .nested hwire henter hlong (.nil depth), ?_⟩
    simpa using hlt

theorem congr {other? : Option Nat} (h : Stretches planOf limits depth steps width?)
    (hwidth : other? = none → width? = none) : Stretches planOf limits depth steps other? where
  conforming := h.conforming
  longer hnone := h.longer (hwidth hnone)

end Stretches

end Steps

/-! ## Values of records -/

namespace Catalog

variable {catalog : Catalog n} {record : RecordId n} {limits : Limits}

section Places

variable {program : Program} {recordAt : Fin program.plans.size → RecordId n}

variable (h : catalog.FlattensInto record program recordAt)
include h

/-- A nested record that reaches no cycle is entered at the depth of the record around it. -/
theorem FlattensInto.enter_eq_ok {target : Fin program.plans.size}
    (htarget : ¬ catalog.ReachesCycle (recordAt target)) (depth : Nat) :
    limits.enter (program.plan target).cyclic depth = .ok depth := by
  rw [(h.planned target).cyclic_eq, isInfinitelyNested_eq_false_iff.2 htarget]
  rfl

end Places

end Catalog

/-! ## Cores -/

namespace CoreCodec

variable {core : CoreCodec n} {catalog : Catalog n} {record : RecordId n}

end CoreCodec

namespace Sample

theorem labelCore_generatedUnder : labelCore.GeneratedUnder catalog 0 := by
  refine ⟨labelSchema, .standard, .empty, .empty, ⟨[], rfl⟩, ⟨[], rfl⟩, .inl rfl, ?_⟩
  with_unfolding_all rfl

end Sample

end RecordCodec
