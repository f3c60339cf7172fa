import RecordCodec.Value.Error
import RecordCodec.Proofs.Stream.Items

/-!
# A reader keeps its place

A reader subtracts its position from the length of its bytes without asking which is greater, adds
counts to it without asking whether there is such a number, and cuts out bytes between places that
need not exist.  None of this can go wrong, whatever reads a reader has answered or refused: its
position is the length of what it has given away, which is what its bytes begin with.
-/

namespace RecordCodec

/-! ## Arithmetic that may fail -/

namespace Checked

def sub? (left right : Nat) : Option Nat :=
  if right ≤ left then some (left - right) else none

/-- The sum of two counts, if it is not too large for a count. -/
def add? (left right : Nat) : Option Nat :=
  if left + right ≤ maxCount then some (left + right) else none

def slice? (data : Array UInt8) (start stop : Nat) : Option (List UInt8) :=
  if start ≤ stop ∧ stop ≤ data.size then some (data.extract start stop).toList else none

end Checked

namespace Reader

/-- `remaining`, where the difference may fail. -/
def remaining? (reader : Reader) : Option Nat :=
  Checked.sub? reader.data.size reader.position

/-- `rest`, where the bytes may not exist. -/
def rest? (reader : Reader) : Option (List UInt8) :=
  Checked.slice? reader.data reader.position reader.data.size

/-- `take`, where each difference and sum may fail and the bytes may not exist. -/
def take? (count : Nat) (reader : Reader) : Option (Except StreamError (List UInt8) × Reader) := do
  let available ← Checked.sub? reader.data.size reader.position
  if available < count then
    return (.error (.unexpectedEnd count available), reader)
  else
    let stop ← Checked.add? reader.position count
    let bytes ← Checked.slice? reader.data reader.position stop
    let position ← Checked.add? reader.position count
    return (.ok bytes, { reader with position })

variable {reader : Reader}

theorem remaining?_of_le (hplace : reader.position ≤ reader.data.size) :
    reader.remaining? = some reader.remaining := by
  rw [remaining?, Checked.sub?, if_pos hplace, remaining]

theorem rest?_of_le (hplace : reader.position ≤ reader.data.size) :
    reader.rest? = some reader.rest := by
  rw [rest?, Checked.slice?, if_pos ⟨hplace, Nat.le_refl _⟩, rest]

/-- The sum is not formed before it is known to be a place in the bytes. -/
theorem take?_of_le (hplace : reader.position ≤ reader.data.size)
    (hsize : reader.data.size ≤ maxCount) (count : Nat) :
    reader.take? count = some (reader.take count) := by
  have hsub : Checked.sub? reader.data.size reader.position = some reader.remaining :=
    remaining?_of_le hplace
  simp only [take?, hsub, Option.bind_eq_bind, Option.bind_some]
  rw [take]
  split
  · rfl
  · rename_i hroom
    have hstop : reader.position + count ≤ reader.data.size := by
      rw [remaining] at hroom
      omega
    have hadd : Checked.add? reader.position count = some (reader.position + count) :=
      if_pos (hstop.trans hsize)
    have hslice : Checked.slice? reader.data reader.position (reader.position + count) =
        some (reader.data.extract reader.position (reader.position + count)).toList :=
      if_pos ⟨Nat.le_add_right _ _, hstop⟩
    simp only [hadd, hslice, Option.bind_some]
    rfl

end Reader

/-! ## Reads one after another -/

/-- Tries to read items of the types one after another: those that were read, and the source in the
end. -/
def ItemType.readEach {σ : Type} [Source σ] (types : List ItemType) (source : σ) : List Item × σ :=
  tryEach (types.map ItemType.read) source

namespace Reader

variable {bytes : List UInt8} {items : List Item} {item : Item} {type : ItemType}
variable {reader after : Reader} {error : StreamError}

/-- The bytes begin with those of the items, and the reader stands behind them. -/
structure HasRead (bytes : List UInt8) (items : List Item) (reader : Reader) : Prop where
  data_eq : reader.data.toList = bytes
  position_eq : reader.position = (items.flatMap Item.bytes).length
  append_eq : items.flatMap Item.bytes ++ reader.rest = bytes

theorem hasRead_ofList (bytes : List UInt8) : HasRead bytes [] (ofList bytes) where
  data_eq := rfl
  position_eq := rfl
  append_eq := by rw [rest_eq_drop]; rfl

/-- A read that succeeds takes the bytes of the item that it gives. -/
theorem HasRead.read (h : HasRead bytes items reader)
    (hread : type.read.run reader = (.ok item, after)) : HasRead bytes (items ++ [item]) after := by
  obtain ⟨-, -, htake⟩ := ItemType.read_eq_ok_iff.1 hread
  obtain ⟨rfl, hrest⟩ := LawfulSource.eq_skip_of_take_eq_ok htake
  refine ⟨h.data_eq, ?_, ?_⟩
  · rw [List.flatMap_append, List.flatMap_singleton, List.length_append, ← h.position_eq]
    rfl
  · rw [List.flatMap_append, List.flatMap_singleton, List.append_assoc, ← h.append_eq]
    exact congrArg (_ ++ ·) hrest.symm

/-- A read fails exactly if fewer bytes remain than it asks for.  It says how many both are, and the
reader stays where it is. -/
theorem run_read_eq_error_iff :
    type.read.run reader = (.error error, after) ↔
      reader.remaining < type.length ∧
        error = .unexpectedEnd type.length reader.remaining ∧ after = reader := by
  rw [← reader.length_rest]
  constructor
  · intro h
    rcases Nat.lt_or_ge reader.rest.length type.length with hshort | hlong
    · rw [LawfulSource.run_of_lt type.takes_read hshort] at h
      cases h
      exact ⟨hshort, rfl, rfl⟩
    · have hrest : type.length ≤ (LawfulSource.rest reader).length := hlong
      obtain ⟨item, hread⟩ := LawfulSource.run_of_le type.takes_read hrest
      rw [hread] at h
      cases h
  · rintro ⟨hshort, rfl, rfl⟩
    exact LawfulSource.run_of_lt type.takes_read hshort

/-- Whatever reads are refused on the way, the reader stands behind the items of the others. -/
theorem hasRead_readEach (bytes : List UInt8) (types : List ItemType) :
    HasRead bytes (ItemType.readEach types (ofList bytes)).1
      (ItemType.readEach types (ofList bytes)).2 := by
  have hrun : HasRead bytes ([] ++ (ItemType.readEach types (ofList bytes)).1)
      (ItemType.readEach types (ofList bytes)).2 := by
    refine tryEach_induction (motive := HasRead bytes) ?_ ?_ (hasRead_ofList bytes)
    · intro step hstep items reader item after hread hrun
      obtain ⟨type, -, rfl⟩ := List.mem_map.1 hstep
      exact hread.read hrun
    · intro step hstep items reader error after hread hrun
      obtain ⟨type, -, rfl⟩ := List.mem_map.1 hstep
      obtain ⟨-, -, rfl⟩ := run_read_eq_error_iff.1 hrun
      exact hread
  exact hrun

theorem HasRead.position_le (h : HasRead bytes items reader) : reader.position ≤ bytes.length := by
  rw [h.position_eq, ← h.append_eq, List.length_append]
  exact Nat.le_add_right _ _

theorem HasRead.remaining_eq (h : HasRead bytes items reader) :
    reader.remaining = bytes.length - reader.position := by
  rw [remaining, ← Array.length_toList, h.data_eq]

/-! ## The place -/

/-- The reader has given away what the bytes begin with, up to its position, and has the others
left.  Nothing that it computes with its position can fail, and a read fails for want of bytes
only. -/
structure InPlace (bytes : List UInt8) (items : List Item) (reader : Reader) : Prop where
  data_eq : reader.data.toList = bytes
  position_le : reader.position ≤ bytes.length
  consumed_eq : items.flatMap Item.bytes = bytes.take reader.position
  rest_eq : reader.rest = bytes.drop reader.position
  remaining?_eq : reader.remaining? = some (bytes.length - reader.position)
  rest?_eq : reader.rest? = some reader.rest
  take?_eq : ∀ count, reader.take? count = some (reader.take count)
  fails_iff : ∀ (type : ItemType) (error : StreamError) (after : Reader),
    type.read.run reader = (.error error, after) ↔
      bytes.length - reader.position < type.length ∧
        error = .unexpectedEnd type.length (bytes.length - reader.position) ∧ after = reader

theorem HasRead.inPlace (h : HasRead bytes items reader) (hlength : bytes.length ≤ maxCount) :
    InPlace bytes items reader := by
  have hsize : reader.data.size = bytes.length := by rw [← Array.length_toList, h.data_eq]
  have hplace : reader.position ≤ reader.data.size := hsize ▸ h.position_le
  refine ⟨h.data_eq, h.position_le, ?_, ?_, ?_, rest?_of_le hplace, ?_, fun type error after => ?_⟩
  · rw [h.position_eq, ← h.append_eq, List.take_left]
  · rw [h.position_eq, ← h.append_eq, List.drop_left]
  · rw [remaining?_of_le hplace, h.remaining_eq]
  · exact take?_of_le hplace (hsize ▸ hlength)
  · rw [run_read_eq_error_iff, h.remaining_eq]

/-- A reader keeps its place, whatever reads it answers or refuses from the start of its bytes. -/
theorem keeps_its_place (bytes : List UInt8) (hlength : bytes.length ≤ maxCount)
    (types : List ItemType) :
    InPlace bytes (ItemType.readEach types (ofList bytes)).1
      (ItemType.readEach types (ofList bytes)).2 :=
  (hasRead_readEach bytes types).inPlace hlength

end Reader

namespace Sample

/-- Of four reads, the second and the third ask for too much. -/
theorem reader_in_place :
    [1, 2, 3].length ≤ maxCount ∧
      Reader.InPlace [1, 2, 3] [.int16 258, .uint8 3] (Reader.mk #[1, 2, 3] 3) := by
  have hlength : [1, 2, 3].length ≤ maxCount := by decide
  have hrun : ItemType.readEach [.int16, .int64, .raw maxCount, .uint8] (.ofList [1, 2, 3]) =
      ([.int16 258, .uint8 3], Reader.mk #[1, 2, 3] 3) := by decide
  refine ⟨hlength, ?_⟩
  have hplace := Reader.keeps_its_place [1, 2, 3] hlength [.int16, .int64, .raw maxCount, .uint8]
  rw [hrun] at hplace
  exact hplace

end Sample

end RecordCodec
