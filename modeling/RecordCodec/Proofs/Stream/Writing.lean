import RecordCodec.Stream.Sink
import RecordCodec.Proofs.Stream.Narrowing

/-!
# What a write leaves behind

A sink that stores what it is given either takes a whole byte string, which then stands behind
everything written before, or has no room for it and stays as it is.  Buffers and growing byte
strings are such sinks.  A buffer changes only in the place where the bytes go.
-/

namespace RecordCodec

open BigEndian

/-- A sink that stores what it is given and fails only when it has no room left. -/
class LawfulSink (κ : Type) extends Sink κ where
  /-- The bytes written so far. -/
  written : κ → List UInt8
  /-- The sink after `bytes` were written to it. -/
  append : (bytes : List UInt8) → κ → κ
  put_of_le : ∀ {bytes : List UInt8} {sink : κ}, bytes.length ≤ Sink.capacity sink →
    Sink.put bytes sink = (.ok (), append bytes sink)
  put_of_lt : ∀ {bytes : List UInt8} {sink : κ}, Sink.capacity sink < bytes.length →
    Sink.put bytes sink = (.error (.overflow bytes.length (Sink.capacity sink)), sink)
  capacity_append : ∀ (bytes : List UInt8) (sink : κ),
    Sink.capacity (append bytes sink) = Sink.capacity sink - bytes.length
  written_append : ∀ {bytes : List UInt8} {sink : κ}, bytes.length ≤ Sink.capacity sink →
    written (append bytes sink) = written sink ++ bytes
  append_nil : ∀ sink : κ, append [] sink = sink
  append_append : ∀ (first second : List UInt8) (sink : κ),
    append second (append first sink) = append (first ++ second) sink

/-! ## Growing byte strings -/

namespace Growing

def append (bytes : List UInt8) (output : Growing) : Growing where
  bytes := output.bytes ++ bytes

theorem put_eq_append {bytes : List UInt8} {output : Growing}
    (hroom : bytes.length ≤ output.capacity) :
    output.put bytes = (.ok (), output.append bytes) := by
  rw [put]
  simp only [Nat.not_lt.2 hroom, if_false, append, Array.appendList_eq_append]

theorem append_empty (bytes : List UInt8) : empty.append bytes = Growing.mk bytes.toArray := by
  simp [append, empty]

instance : LawfulSink Growing where
  written := Growing.written
  append := Growing.append
  put_of_le := put_eq_append
  put_of_lt {bytes output} hfull := by
    change output.put bytes = _
    exact if_pos hfull
  capacity_append bytes output := by
    change Growing.capacity _ = Growing.capacity _ - _
    rw [capacity, capacity, append, ← Array.length_toList, Array.toList_appendList,
      List.length_append, Array.length_toList, Nat.sub_sub]
  written_append _ := by
    simp [written, append]
  append_nil output := by
    simp [append]
  append_append first second output := by
    apply congrArg Growing.mk
    apply Array.ext'
    simp [append]

end Growing

/-! ## Buffers -/

namespace Buffer

@[simp]
theorem size_overwrite (contents : Array UInt8) (position : Nat) (bytes : List UInt8) :
    (overwrite contents position bytes).size = contents.size := by
  induction bytes generalizing contents position with
  | nil => rfl
  | cons byte bytes ih => rw [overwrite, ih, Array.size_setIfInBounds]

theorem overwrite_append (contents : Array UInt8) (position : Nat) (first second : List UInt8) :
    overwrite contents position (first ++ second) =
      overwrite (overwrite contents position first) (position + first.length) second := by
  induction first generalizing contents position with
  | nil => rfl
  | cons byte first ih =>
    rw [List.cons_append, overwrite, ih, overwrite, List.length_cons, Nat.add_assoc,
      Nat.add_comm 1]

/-- Every byte before and after those laid over stays as it was. -/
theorem getElem?_overwrite {contents : Array UInt8} {position : Nat} {bytes : List UInt8}
    {index : Nat} (houtside : index < position ∨ position + bytes.length ≤ index) :
    (overwrite contents position bytes)[index]? = contents[index]? := by
  induction bytes generalizing contents position with
  | nil => rfl
  | cons byte bytes ih =>
    rw [List.length_cons] at houtside
    rw [overwrite, ih (by omega), Array.getElem?_setIfInBounds_ne (by omega)]

/-- The bytes laid over stand in their place. -/
theorem getElem?_overwrite_add {contents : Array UInt8} {position index : Nat} {bytes : List UInt8}
    (hroom : position + bytes.length ≤ contents.size) (hindex : index < bytes.length) :
    (overwrite contents position bytes)[position + index]? = bytes[index]? := by
  induction bytes generalizing contents position index with
  | nil => cases hindex
  | cons byte bytes ih =>
    rw [List.length_cons] at hroom hindex
    rw [overwrite]
    cases index with
    | zero =>
      change (overwrite _ (position + 1) bytes)[position]? = some byte
      have hbefore : position < position + 1 := Nat.lt_succ_self position
      rw [getElem?_overwrite (.inl hbefore), Array.getElem?_setIfInBounds_self_of_lt (by omega)]
    | succ index =>
      have hnext : position + (index + 1) = position + 1 + index := by omega
      rw [hnext, ih (by rw [Array.size_setIfInBounds]; omega) (by omega), List.getElem?_cons_succ]

theorem take_overwrite {contents : Array UInt8} {position : Nat} {bytes : List UInt8}
    (hroom : position + bytes.length ≤ contents.size) :
    (overwrite contents position bytes).toList.take (position + bytes.length) =
      contents.toList.take position ++ bytes := by
  induction bytes generalizing contents position with
  | nil => simp [overwrite]
  | cons byte bytes ih =>
    rw [List.length_cons] at hroom ⊢
    have hbyte : (contents.setIfInBounds position byte).toList.take (position + 1) =
        contents.toList.take position ++ [byte] := by
      have hlt : position < contents.toList.length := by
        rw [Array.length_toList]
        omega
      rw [Array.toList_setIfInBounds, List.take_add_one, List.take_set_of_le (Nat.le_refl _),
        List.getElem?_set_self hlt]
      rfl
    have hnext : position + (bytes.length + 1) = position + 1 + bytes.length := by omega
    rw [overwrite, hnext, ih (by rw [Array.size_setIfInBounds]; omega), hbyte, List.append_assoc]
    rfl

theorem written_eq_take (buffer : Buffer) :
    buffer.written = buffer.contents.toList.take buffer.filled := by
  rw [written, Array.toList_extract, List.extract_eq_take_drop, List.drop_zero, Nat.sub_zero]

/-- The buffer with `bytes` behind those written before. -/
def append (bytes : List UInt8) (buffer : Buffer) : Buffer where
  contents := overwrite buffer.contents buffer.filled bytes
  filled := buffer.filled + bytes.length

theorem written_append {bytes : List UInt8} {buffer : Buffer}
    (hroom : bytes.length ≤ buffer.capacity) :
    (buffer.append bytes).written = buffer.written ++ bytes := by
  rw [written_eq_take, written_eq_take]
  rw [capacity] at hroom
  rcases Nat.le_total buffer.filled buffer.contents.size with hfilled | hover
  · exact take_overwrite (by omega)
  · -- The mark lies past the end: there is no room but for the empty string.
    obtain rfl : bytes = [] := List.length_eq_zero_iff.1 (by omega)
    rw [List.append_nil]
    rfl

/-- `after` is the buffer with `bytes` behind those written before, and otherwise as it was. -/
structure Extends (buffer : Buffer) (bytes : List UInt8) (after : Buffer) : Prop where
  filled_eq : after.filled = buffer.filled + bytes.length
  size_eq : after.contents.size = buffer.contents.size
  inside : ∀ index < bytes.length, after.contents[buffer.filled + index]? = bytes[index]?
  outside : ∀ index, index < buffer.filled ∨ buffer.filled + bytes.length ≤ index →
    after.contents[index]? = buffer.contents[index]?

theorem extends_append {bytes : List UInt8} {buffer : Buffer}
    (hroom : bytes.length ≤ buffer.capacity) : buffer.Extends bytes (buffer.append bytes) where
  filled_eq := rfl
  size_eq := size_overwrite _ _ _
  inside index hindex := by
    rw [capacity] at hroom
    exact getElem?_overwrite_add (by omega) hindex
  outside _ houtside := getElem?_overwrite houtside

instance : LawfulSink Buffer where
  written := Buffer.written
  append := Buffer.append
  put_of_le {bytes buffer} hroom := by
    change buffer.put bytes = _
    exact if_neg (Nat.not_lt.2 hroom)
  put_of_lt {bytes buffer} hfull := by
    change buffer.put bytes = _
    exact if_pos hfull
  capacity_append bytes buffer := by
    change (overwrite _ _ _).size - (_ + _) = _ - _ - _
    rw [size_overwrite, Nat.sub_sub]
  written_append := written_append
  append_nil buffer := rfl
  append_append first second buffer := by
    simp only [append, overwrite_append, List.length_append, Nat.add_assoc]

end Buffer

/-! ## Typed writes -/

namespace Sink

variable {κ : Type}

/-- A number that fits its width is written like any byte string. -/
theorem writeUnsigned_of_le [Sink κ] {value : Int64} {width : Width}
    (hrange : 0 ≤ value.toInt ∧ value.toInt ≤ width.maxValue) :
    (writeUnsigned value width : Writing κ Unit) =
      writeBytes (encode width.bytes value.toInt.toNat) := by
  rw [writeUnsigned, narrow_eq, if_pos hrange]
  rfl

variable [LawfulSink κ] {bytes : List UInt8} {sink : κ}

theorem run_writeBytes_of_le (hroom : bytes.length ≤ capacity sink) :
    (writeBytes bytes).run sink = (.ok (), LawfulSink.append bytes sink) :=
  LawfulSink.put_of_le hroom

theorem run_writeBytes_of_lt (hfull : capacity sink < bytes.length) :
    (writeBytes bytes).run sink = (.error (.overflow bytes.length (capacity sink)), sink) :=
  LawfulSink.put_of_lt hfull

end Sink

end RecordCodec
