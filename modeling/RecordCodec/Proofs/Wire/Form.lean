import RecordCodec.Plan.Basic
import RecordCodec.Value.Basic
import RecordCodec.Value.Error
import Mathlib.Tactic.Common

/-!
# Wire forms

The wire form of the values of a record is said here without reading or writing anything: which
values conform to which steps under which limits, and which bytes stand for them.  Reading, checking
and writing are each compared with this one relation.
-/

namespace RecordCodec

/-- `bytes` are the wire form of `value` as a leaf, and the limits allow it. -/
inductive Leaf.WireForm (limits : Limits) : Leaf → Value → List UInt8 → Prop where
  | int8 (value : Int8) :
      WireForm limits .int8 (.int8 value) (BigEndian.encode 1 value.toUInt8.toNat)
  | int16 (value : Int16) :
      WireForm limits .int16 (.int16 value) (BigEndian.encode 2 value.toUInt16.toNat)
  | int32 (value : Int32) :
      WireForm limits .int32 (.int32 value) (BigEndian.encode 4 value.toUInt32.toNat)
  | int64 (value : Int64) :
      WireForm limits .int64 (.int64 value) (BigEndian.encode 8 value.toUInt64.toNat)
  | float32 (bits : UInt32) :
      WireForm limits .float32 (.float32 bits) (BigEndian.encode 4 bits.toNat)
  | float64 (bits : UInt64) :
      WireForm limits .float64 (.float64 bits) (BigEndian.encode 8 bits.toNat)
  | char16 (unit : UInt16) : WireForm limits .char16 (.char16 unit) (BigEndian.encode 2 unit.toNat)
  | unsigned32 {width : Width} {value : Int32}
      (hrange : 0 ≤ value.toInt ∧ value.toInt ≤ width.maxValue) :
      WireForm limits (.unsigned32 width) (.int32 value)
        (BigEndian.encode width.bytes value.toInt.toNat)
  | unsigned64 {width : Width} {value : Int64}
      (hrange : 0 ≤ value.toInt ∧ value.toInt ≤ width.maxValue) :
      WireForm limits (.unsigned64 width) (.int64 value)
        (BigEndian.encode width.bytes value.toInt.toNat)
  | enum {variants ordinal : Nat} (hvariant : ordinal < variants)
      (hbyte : ordinal < UInt8.size) :
      WireForm limits (.enum variants) (.enum ordinal) (BigEndian.encode 1 ordinal)
  | text {string : String}
      (hlength : (Utf8.encode string).length ≤ limits.effectiveLength) :
      WireForm limits .text (.text string)
        (BigEndian.encode 2 (Utf8.encode string).length ++ Utf8.encode string)
  | bytes {string : List UInt8} (hlength : string.length ≤ limits.effectiveLength) :
      WireForm limits .bytes (.bytes string) (BigEndian.encode 2 string.length ++ string)

/-- `bytes` are the wire form of `values`, one for each step, at the given depth of nesting. -/
inductive WireForm {ρ : Type} (planOf : ρ → Plan ρ) (limits : Limits) :
    (depth : Nat) → List (Step ρ) → List Value → List UInt8 → Prop where
  | nil (depth : Nat) : WireForm planOf limits depth [] [] []
  | leaf {depth : Nat} {step : Step ρ} {steps : List (Step ρ)} {kind : Leaf} {value : Value}
      {values : List Value} {bytes others : List UInt8}
      (hwire : step.wire = .leaf kind) (hvalue : kind.WireForm limits value bytes)
      (hothers : WireForm planOf limits depth steps values others) :
      WireForm planOf limits depth (step :: steps) (value :: values) (bytes ++ others)
  | nested {depth inner : Nat} {step : Step ρ} {steps : List (Step ρ)} {target : ρ}
      {fields values : List Value} {bytes others : List UInt8}
      (hwire : step.wire = .nested target)
      (henter : limits.enter (planOf target).cyclic depth = .ok inner)
      (hfields : WireForm planOf limits inner (planOf target).steps fields bytes)
      (hothers : WireForm planOf limits depth steps values others) :
      WireForm planOf limits depth (step :: steps) (.record fields :: values) (bytes ++ others)

theorem Leaf.WireForm.unique {limits : Limits} {leaf : Leaf} {value : Value}
    {first second : List UInt8} (hfirst : leaf.WireForm limits value first)
    (hsecond : leaf.WireForm limits value second) : first = second := by
  cases hfirst <;> cases hsecond <;> rfl

variable {ρ : Type} {planOf : ρ → Plan ρ} {limits : Limits} {depth : Nat} {steps : List (Step ρ)}
variable {values : List Value} {bytes : List UInt8}

/-- The same values have the same form, wherever they come from. -/
theorem WireForm.unique {second : List UInt8}
    (hfirst : WireForm planOf limits depth steps values bytes)
    (hsecond : WireForm planOf limits depth steps values second) : bytes = second := by
  induction hfirst generalizing second with
  | nil => cases hsecond; rfl
  | leaf hwire hvalue _ ih =>
    cases hsecond with
    | leaf hwire' hvalue' hothers' =>
      obtain rfl : _ = _ := Wire.leaf.inj (hwire.symm.trans hwire')
      rw [hvalue.unique hvalue', ih hothers']
    | nested hwire' => cases hwire.symm.trans hwire'
  | nested hwire henter _ _ ihfields ih =>
    cases hsecond with
    | leaf hwire' => cases hwire.symm.trans hwire'
    | nested hwire' henter' hfields' hothers' =>
      obtain rfl : _ = _ := Wire.nested.inj (hwire.symm.trans hwire')
      obtain rfl : _ = _ := Except.ok.inj (henter.symm.trans henter')
      rw [ihfields hfields', ih hothers']

theorem WireForm.length_values (h : WireForm planOf limits depth steps values bytes) :
    values.length = steps.length := by
  induction h with
  | nil => rfl
  | leaf _ _ _ ih => rw [List.length_cons, List.length_cons, ih]
  | nested _ _ _ _ _ ih => rw [List.length_cons, List.length_cons, ih]

/-- Forms of two lists of steps, one behind the other. -/
theorem WireForm.append {others : List (Step ρ)} {otherValues : List Value}
    {otherBytes : List UInt8} (hfirst : WireForm planOf limits depth steps values bytes)
    (hothers : WireForm planOf limits depth others otherValues otherBytes) :
    WireForm planOf limits depth (steps ++ others) (values ++ otherValues)
      (bytes ++ otherBytes) := by
  induction hfirst with
  | nil => exact hothers
  | leaf hwire hvalue _ ih =>
    rw [List.append_assoc]
    exact .leaf hwire hvalue (ih hothers)
  | nested hwire henter hfields _ _ ih =>
    rw [List.append_assoc]
    exact .nested hwire henter hfields (ih hothers)

/-- A leaf of a known width takes so many bytes. -/
theorem Leaf.WireForm.length_eq_of_width? {leaf : Leaf} {value : Value} {width : Nat}
    (h : leaf.WireForm limits value bytes) (hwidth : leaf.width? = some width) :
    bytes.length = width := by
  cases h <;> cases hwidth <;> exact BigEndian.length_encode _ _

end RecordCodec
