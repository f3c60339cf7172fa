import RecordCodec.Number.BigEndian

/-!
# Widths and counts

An integer field may travel as an unsigned number of one, two or four bytes.  Bytes are counted in
64 bits, and a sum of counts that does not fit is cut off without a word.
-/

namespace RecordCodec

/-! ## Counts -/

def maxCount : Nat := UInt64.size - 1

/-- What 64 bits keep of a number: after the greatest count comes zero again. -/
def wrapCount (number : Nat) : Nat := number % UInt64.size

theorem wrapCount_of_le {number : Nat} (h : number ≤ maxCount) : wrapCount number = number := by
  apply Nat.mod_eq_of_lt
  unfold maxCount at h
  have hsize : 0 < UInt64.size := by decide
  omega

theorem wrapCount_le (number : Nat) : wrapCount number ≤ number :=
  Nat.mod_le number UInt64.size

theorem wrapCount_le_maxCount (number : Nat) : wrapCount number ≤ maxCount :=
  Nat.le_sub_one_of_lt (Nat.mod_lt number (by decide))

/-- Whether a part of a sum was cut off before shows no more once the sum is. -/
theorem wrapCount_wrapCount_add (left right : Nat) :
    wrapCount (wrapCount left + right) = wrapCount (left + right) :=
  Nat.mod_add_mod left UInt64.size right

theorem wrapCount_add_wrapCount (left right : Nat) :
    wrapCount (left + wrapCount right) = wrapCount (left + right) :=
  Nat.add_mod_mod left right UInt64.size

/-! ## Widths -/

/-- The width of an unsigned number on the wire. -/
inductive Width where
  | u8
  | u16
  | u32
  deriving DecidableEq

namespace Width

def all : List Width := [u8, u16, u32]

def bytes : Width → Nat
  | u8 => 1
  | u16 => 2
  | u32 => 4

def maxValue (width : Width) : Nat :=
  BigEndian.bound width.bytes - 1

def name : Width → String
  | u8 => "u8"
  | u16 => "u16"
  | u32 => "u32"

/-- The name of the width as a choice among the three, which starts with a capital. -/
def label : Width → String
  | u8 => "U8"
  | u16 => "U16"
  | u32 => "U32"

def ofBytes? : Nat → Option Width
  | 1 => some u8
  | 2 => some u16
  | 4 => some u32
  | _ => none

theorem ofBytes?_bytes (width : Width) : ofBytes? width.bytes = some width := by
  cases width <;> rfl

theorem bytes_of_ofBytes? {count : Nat} {width : Width} (h : ofBytes? count = some width) :
    width.bytes = count := by
  unfold ofBytes? at h
  split at h <;> cases h <;> rfl

theorem le_maxValue_iff (width : Width) (value : Nat) :
    value ≤ width.maxValue ↔ value < BigEndian.bound width.bytes := by
  have hpos := BigEndian.bound_pos width.bytes
  unfold maxValue
  omega

end Width

end RecordCodec
