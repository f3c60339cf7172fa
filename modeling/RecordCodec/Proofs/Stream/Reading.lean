import RecordCodec.Stream.Source
import RecordCodec.Proofs.Stream.Narrowing

/-!
# What a read takes

A typed read takes so many bytes and makes a number of them.  It gives a number exactly if the bytes
that it takes are the written form of the number, whatever the source.  On a source that holds its
bytes and fails only at their end, a typed read succeeds exactly if so many bytes are left.
-/

namespace RecordCodec

open BigEndian

/-! ## Typed reads of any source -/

namespace Reading

variable {σ α β : Type}

theorem run_map (f : α → β) (reading : Reading σ α) (source : σ) :
    (f <$> reading).run source =
      ((reading.run source).1.map f, (reading.run source).2) := by
  rw [ExceptT.run_map]
  rfl

theorem run_bind (reading : Reading σ α) (next : α → Reading σ β) (source : σ) :
    (reading >>= next).run source =
      match reading.run source with
      | (.ok value, after) => (next value).run after
      | (.error error, after) => (.error error, after) := by
  change (match reading.run source with
    | (outcome, after) => ExceptT.bindCont next outcome after) = _
  generalize reading.run source = result
  rcases result with ⟨outcome, after⟩
  cases outcome <;> rfl

theorem map_eq_ok_iff {f : α → β} {reading : Reading σ α} {source after : σ} {value : β} :
    (f <$> reading).run source = (.ok value, after) ↔
      ∃ inner, reading.run source = (.ok inner, after) ∧ f inner = value := by
  rw [run_map]
  generalize reading.run source = result
  rcases result with ⟨outcome, reached⟩
  constructor
  · intro h
    cases outcome with
    | error error => cases h
    | ok inner =>
      cases h
      exact ⟨inner, rfl, rfl⟩
  · rintro ⟨inner, h, rfl⟩
    cases h
    rfl

theorem map_eq_error_iff {f : α → β} {reading : Reading σ α} {source after : σ}
    {error : StreamError} :
    (f <$> reading).run source = (.error error, after) ↔
      reading.run source = (.error error, after) := by
  rw [run_map]
  generalize reading.run source = result
  rcases result with ⟨outcome, reached⟩
  cases outcome with
  | error other =>
    constructor <;>
    · intro h
      cases h
      rfl
  | ok inner =>
    constructor <;>
    · intro h
      cases h

theorem map_eq_ok_iff_of_inverse {f : α → β} {g : β → α} (hgf : ∀ inner, g (f inner) = inner)
    (hfg : ∀ value, f (g value) = value) {reading : Reading σ α} {source after : σ} {value : β} :
    (f <$> reading).run source = (.ok value, after) ↔
      reading.run source = (.ok (g value), after) := by
  rw [map_eq_ok_iff]
  constructor
  · rintro ⟨inner, h, rfl⟩
    rw [hgf]
    exact h
  · intro h
    exact ⟨g value, h, hfg value⟩

/-- The reading takes `count` bytes at once and makes a value of them, whatever they are. -/
def Takes [Source σ] (count : Nat) (reading : Reading σ α) : Prop :=
  ∃ value : List UInt8 → α, reading = value <$> Source.readBytes count

theorem Takes.map [Source σ] {count : Nat} {reading : Reading σ α} (f : α → β)
    (h : reading.Takes count) : (f <$> reading).Takes count := by
  obtain ⟨value, rfl⟩ := h
  exact ⟨f ∘ value, by rw [comp_map]⟩

end Reading

namespace Source

variable {σ α : Type} [Source σ] {source after : σ} {count : Nat}

theorem readNat_eq_ok_iff {number : Nat} :
    (readNat count).run source = (.ok number, after) ↔
      number < bound count ∧ take count source = (.ok (encode count number), after) := by
  rw [readNat, Reading.map_eq_ok_iff]
  constructor
  · rintro ⟨bytes, htake, rfl⟩
    have hlength : bytes.length = count := length_of_take (congrArg Prod.fst htake)
    subst hlength
    exact ⟨decode_lt bytes, by rw [encode_decode]; exact htake⟩
  · rintro ⟨hlt, htake⟩
    exact ⟨encode count number, htake, decode_encode_of_lt hlt⟩

/-- The numbers of a type travel in `count` bytes: `toNat` and `ofNat` lead to the natural numbers
below the bound and back. -/
private theorem map_readNat_eq_ok_iff {ofNat : Nat → α} {toNat : α → Nat}
    (hlt : ∀ value, toNat value < bound count) (hofNat : ∀ value, ofNat (toNat value) = value)
    (htoNat : ∀ number < bound count, toNat (ofNat number) = number) {value : α} :
    (ofNat <$> readNat count).run source = (.ok value, after) ↔
      take count source = (.ok (encode count (toNat value)), after) := by
  rw [Reading.map_eq_ok_iff]
  constructor
  · rintro ⟨number, hread, rfl⟩
    obtain ⟨hnumber, htake⟩ := readNat_eq_ok_iff.1 hread
    rw [htoNat number hnumber]
    exact htake
  · intro htake
    exact ⟨toNat value, readNat_eq_ok_iff.2 ⟨hlt value, htake⟩, hofNat value⟩

theorem readUInt8_eq_ok_iff {value : UInt8} :
    readUInt8.run source = (.ok value, after) ↔
      take 1 source = (.ok (encode 1 value.toNat), after) :=
  map_readNat_eq_ok_iff UInt8.toNat_lt (fun _ => UInt8.ofNat_toNat)
    fun _ => UInt8.toNat_ofNat_of_lt

theorem readUInt16_eq_ok_iff {value : UInt16} :
    readUInt16.run source = (.ok value, after) ↔
      take 2 source = (.ok (encode 2 value.toNat), after) :=
  map_readNat_eq_ok_iff UInt16.toNat_lt (fun _ => UInt16.ofNat_toNat)
    fun _ => UInt16.toNat_ofNat_of_lt

theorem readUInt32_eq_ok_iff {value : UInt32} :
    readUInt32.run source = (.ok value, after) ↔
      take 4 source = (.ok (encode 4 value.toNat), after) :=
  map_readNat_eq_ok_iff UInt32.toNat_lt (fun _ => UInt32.ofNat_toNat)
    fun _ => UInt32.toNat_ofNat_of_lt

theorem readUInt64_eq_ok_iff {value : UInt64} :
    readUInt64.run source = (.ok value, after) ↔
      take 8 source = (.ok (encode 8 value.toNat), after) :=
  map_readNat_eq_ok_iff UInt64.toNat_lt (fun _ => UInt64.ofNat_toNat)
    fun _ => UInt64.toNat_ofNat_of_lt

theorem readInt8_eq_ok_iff {value : Int8} :
    readInt8.run source = (.ok value, after) ↔
      take 1 source = (.ok (encode 1 value.toUInt8.toNat), after) :=
  (Reading.map_eq_ok_iff_of_inverse UInt8.toUInt8_toInt8 Int8.toInt8_toUInt8).trans
    readUInt8_eq_ok_iff

theorem readInt16_eq_ok_iff {value : Int16} :
    readInt16.run source = (.ok value, after) ↔
      take 2 source = (.ok (encode 2 value.toUInt16.toNat), after) :=
  (Reading.map_eq_ok_iff_of_inverse UInt16.toUInt16_toInt16 Int16.toInt16_toUInt16).trans
    readUInt16_eq_ok_iff

theorem readInt32_eq_ok_iff {value : Int32} :
    readInt32.run source = (.ok value, after) ↔
      take 4 source = (.ok (encode 4 value.toUInt32.toNat), after) :=
  (Reading.map_eq_ok_iff_of_inverse UInt32.toUInt32_toInt32 Int32.toInt32_toUInt32).trans
    readUInt32_eq_ok_iff

theorem readInt64_eq_ok_iff {value : Int64} :
    readInt64.run source = (.ok value, after) ↔
      take 8 source = (.ok (encode 8 value.toUInt64.toNat), after) :=
  (Reading.map_eq_ok_iff_of_inverse UInt64.toUInt64_toInt64 Int64.toInt64_toUInt64).trans
    readUInt64_eq_ok_iff

/-- Three or more bytes never have to be cut off: `widen` refuses no string of a width's length. -/
theorem readUnsigned_eq_map (width : Width) :
    readUnsigned width = (Int64.ofNat <$> readNat width.bytes : Reading σ Int64) := by
  apply ExceptT.ext
  funext source
  rw [Reading.run_map, readNat, Reading.run_map, readUnsigned, Reading.run_bind]
  have hlength : ∀ bytes, ((readBytes width.bytes).run source).1 = .ok bytes →
      bytes.length = width.bytes := fun _ => length_of_take
  generalize (readBytes width.bytes).run source = result at hlength
  rcases result with ⟨outcome, after⟩
  cases outcome with
  | error error => rfl
  | ok bytes =>
    have hwiden : widen bytes = .ok (Int64.ofNat (decode bytes)) := by
      rw [widen_eq, hlength bytes rfl, Width.ofBytes?_bytes]
    exact congrArg (·, after) hwiden

theorem readUnsigned_eq_ok_iff {width : Width} {value : Int64} :
    (readUnsigned width).run source = (.ok value, after) ↔
      (0 ≤ value.toInt ∧ value.toInt ≤ width.maxValue) ∧
        take width.bytes source = (.ok (encode width.bytes value.toInt.toNat), after) := by
  rw [readUnsigned_eq_map, Reading.map_eq_ok_iff]
  constructor
  · rintro ⟨number, hread, rfl⟩
    obtain ⟨hlt, htake⟩ := readNat_eq_ok_iff.1 hread
    have hmax : number ≤ width.maxValue := (width.le_maxValue_iff number).2 hlt
    rw [width.toInt_ofNat_of_lt_bound hlt]
    exact ⟨by omega, htake⟩
  · rintro ⟨⟨hnonneg, hmax⟩, htake⟩
    have hlt : value.toInt.toNat < bound width.bytes :=
      (width.le_maxValue_iff _).1 (by omega)
    refine ⟨value.toInt.toNat, readNat_eq_ok_iff.2 ⟨hlt, htake⟩, ?_⟩
    apply Int64.toInt_inj.1
    rw [width.toInt_ofNat_of_lt_bound hlt, Int.toNat_of_nonneg hnonneg]

/-! Each typed read takes all its bytes at once. -/

theorem takes_readBytes (count : Nat) : (readBytes count : Reading σ (List UInt8)).Takes count :=
  ⟨id, (id_map _).symm⟩

theorem takes_readNat : (readNat count : Reading σ Nat).Takes count :=
  ⟨decode, rfl⟩

theorem takes_readUInt8 : (readUInt8 : Reading σ UInt8).Takes 1 := takes_readNat.map _

theorem takes_readUInt16 : (readUInt16 : Reading σ UInt16).Takes 2 := takes_readNat.map _

theorem takes_readUInt32 : (readUInt32 : Reading σ UInt32).Takes 4 := takes_readNat.map _

theorem takes_readUInt64 : (readUInt64 : Reading σ UInt64).Takes 8 := takes_readNat.map _

theorem takes_readInt8 : (readInt8 : Reading σ Int8).Takes 1 := takes_readUInt8.map _

theorem takes_readInt16 : (readInt16 : Reading σ Int16).Takes 2 := takes_readUInt16.map _

theorem takes_readInt32 : (readInt32 : Reading σ Int32).Takes 4 := takes_readUInt32.map _

theorem takes_readInt64 : (readInt64 : Reading σ Int64).Takes 8 := takes_readUInt64.map _

theorem takes_readUnsigned (width : Width) :
    (readUnsigned width : Reading σ Int64).Takes width.bytes := by
  rw [readUnsigned_eq_map]
  exact takes_readNat.map _

/-- Reads that succeed lead from one state of a source to another and give the bytes in between. -/
inductive Reads : σ → List UInt8 → σ → Prop where
  | done (source : σ) : Reads source [] source
  | step {source reached after : σ} {count : Nat} {first rest : List UInt8} :
      take count source = (.ok first, reached) → Reads reached rest after →
        Reads source (first ++ rest) after

theorem Reads.single {bytes : List UInt8} (h : take count source = (.ok bytes, after)) :
    Reads source bytes after := by
  rw [← List.append_nil bytes]
  exact .step h (.done after)

theorem Reads.append {reached : σ} {first rest : List UInt8} (hfirst : Reads source first reached)
    (hrest : Reads reached rest after) : Reads source (first ++ rest) after := by
  induction hfirst with
  | done => exact hrest
  | step htake _ ih =>
    rw [List.append_assoc]
    exact .step htake (ih hrest)

end Source

/-! ## Sources that hold their bytes -/

/-- A source that holds a byte string, gives its bytes in order, and fails only at their end. -/
class LawfulSource (σ : Type) extends Source σ where
  /-- The bytes that have not been read. -/
  rest : σ → List UInt8
  /-- The source past its next `count` bytes. -/
  skip : (count : Nat) → σ → σ
  remaining_eq : ∀ source, Source.remaining source = (rest source).length
  take_of_le : ∀ {count source}, count ≤ (rest source).length →
    Source.take count source = (.ok ((rest source).take count), skip count source)
  take_of_lt : ∀ {count source}, (rest source).length < count →
    Source.take count source = (.error (.unexpectedEnd count (rest source).length), source)
  rest_skip : ∀ count source, rest (skip count source) = (rest source).drop count
  skip_zero : ∀ source, skip 0 source = source
  skip_skip : ∀ first second source, skip second (skip first source) = skip (first + second) source

theorem Reader.rest_eq_drop (reader : Reader) :
    reader.rest = reader.data.toList.drop reader.position := by
  rw [rest, Array.toList_extract, List.extract_eq_take_drop, List.take_of_length_le]
  simp

theorem Reader.length_rest (reader : Reader) : reader.rest.length = reader.remaining := by
  rw [rest_eq_drop, List.length_drop, Array.length_toList, remaining]

theorem Reader.toList_extract_eq_take (reader : Reader) (count : Nat) :
    (reader.data.extract reader.position (reader.position + count)).toList =
      reader.rest.take count := by
  rw [rest_eq_drop, Array.toList_extract, List.extract_eq_take_drop, Nat.add_sub_cancel_left]

instance : LawfulSource Reader where
  rest := Reader.rest
  skip count reader := { reader with position := reader.position + count }
  remaining_eq reader := reader.length_rest.symm
  take_of_le {count reader} h := by
    rw [Reader.length_rest] at h
    change reader.take count = _
    rw [Reader.take, if_neg (Nat.not_lt.2 h), Reader.toList_extract_eq_take]
  take_of_lt {count reader} h := by
    rw [Reader.length_rest] at h ⊢
    change reader.take count = _
    rw [Reader.take, if_pos h]
  rest_skip count reader := by
    rw [Reader.rest_eq_drop, Reader.rest_eq_drop, List.drop_drop]
  skip_zero reader := rfl
  skip_skip first second reader := by rw [Nat.add_assoc]

/-- The reader over the bytes of a cursor, at its position. -/
def Cursor.toReader (cursor : Cursor) : Reader where
  data := cursor.data
  position := cursor.position

/-- A cursor past the end is lawful like any other: no byte is left in it. -/
instance : LawfulSource Cursor where
  rest cursor := cursor.toReader.rest
  skip count cursor := cursor.seek (cursor.position + count)
  remaining_eq cursor := cursor.toReader.length_rest.symm
  take_of_le {count cursor} h := by
    rw [Reader.length_rest] at h
    change cursor.take count = _
    rw [Cursor.take_of_le h]
    exact Prod.ext (congrArg Except.ok (cursor.toReader.toList_extract_eq_take count)) rfl
  take_of_lt {count cursor} h := by
    rw [Reader.length_rest] at h ⊢
    have hshort : cursor.remaining < count := h
    change cursor.take count = _
    rw [Cursor.take, if_pos hshort]
    rfl
  rest_skip count cursor := by
    rw [Reader.rest_eq_drop, Reader.rest_eq_drop, List.drop_drop]
    rfl
  skip_zero cursor := rfl
  skip_skip first second cursor := by
    simp only [Cursor.seek, Nat.add_assoc]

namespace LawfulSource

variable {σ α : Type} [LawfulSource σ] {source after : σ} {count : Nat} {bytes unread : List UInt8}

theorem take_of_rest_eq (h : rest source = bytes ++ unread) :
    Source.take bytes.length source = (.ok bytes, skip bytes.length source) := by
  rw [take_of_le (by simp [h]), h, List.take_left]

theorem rest_skip_of_rest_eq (h : rest source = bytes ++ unread) :
    rest (skip bytes.length source) = unread := by
  rw [rest_skip, h, List.drop_left]

theorem run_of_le {reading : Reading σ α} (htakes : reading.Takes count)
    (h : count ≤ (rest source).length) :
    ∃ value, reading.run source = (.ok value, skip count source) := by
  obtain ⟨value, rfl⟩ := htakes
  exact ⟨_, Reading.map_eq_ok_iff.2 ⟨_, take_of_le h, rfl⟩⟩

theorem run_of_lt {reading : Reading σ α} (htakes : reading.Takes count)
    (h : (rest source).length < count) :
    reading.run source = (.error (.unexpectedEnd count (rest source).length), source) := by
  obtain ⟨value, rfl⟩ := htakes
  have htake : (Source.readBytes count).run source =
      (.error (.unexpectedEnd count (rest source).length), source) := take_of_lt h
  rw [Reading.run_map, htake]
  rfl

theorem eq_skip_of_take_eq_ok (h : Source.take count source = (.ok bytes, after)) :
    after = skip bytes.length source ∧ rest source = bytes ++ rest after := by
  rcases Nat.lt_or_ge (rest source).length count with hlt | hle
  · rw [take_of_lt hlt] at h
    cases h
  · rw [take_of_le hle] at h
    obtain ⟨rfl, rfl⟩ : (rest source).take count = bytes ∧ skip count source = after := by
      cases h
      exact ⟨rfl, rfl⟩
    rw [List.length_take_of_le hle, rest_skip, List.take_append_drop]
    exact ⟨rfl, rfl⟩

/-- Reads that succeed take the bytes that come next, and nothing else. -/
theorem eq_skip_of_reads (h : Source.Reads source bytes after) :
    after = skip bytes.length source ∧ rest source = bytes ++ rest after := by
  induction h with
  | done source => exact ⟨(skip_zero source).symm, rfl⟩
  | step htake _ ih =>
    obtain ⟨rfl, hfirst⟩ := eq_skip_of_take_eq_ok htake
    obtain ⟨rfl, hrest⟩ := ih
    rw [skip_skip, ← List.length_append] at hrest ⊢
    rw [hfirst, hrest, List.append_assoc]
    exact ⟨rfl, rfl⟩

end LawfulSource

end RecordCodec
