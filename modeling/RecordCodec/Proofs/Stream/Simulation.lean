import RecordCodec.Proofs.Stream.Reading

/-!
# Sources that cannot be told apart

Two sources simulate each other if they report the same remaining bytes and every read gives the
same on both.  Typed reads then agree as well.  A recorded source is a source of any kind together
with the bytes that were read from it; nothing that is read shows the difference.
-/

namespace RecordCodec

/-- Related sources report the same remaining bytes, and every read gives the same on both and
leaves them related. -/
structure Source.Simulates {σ τ : Type} [Source σ] [Source τ] (related : σ → τ → Prop) : Prop where
  remaining : ∀ source other, related source other →
    Source.remaining source = Source.remaining other
  take : ∀ count source other, related source other →
    (Source.take count source).1 = (Source.take count other).1 ∧
      related (Source.take count source).2 (Source.take count other).2

theorem Source.simulates_eq {σ : Type} [Source σ] : Source.Simulates (@Eq σ) where
  remaining source other h := by rw [h]
  take count source other h := by
    rw [h]
    exact ⟨rfl, rfl⟩

theorem Source.Simulates.flip {σ τ : Type} [Source σ] [Source τ] {related : σ → τ → Prop}
    (h : Source.Simulates related) : Source.Simulates (Function.swap related) where
  remaining source other hrelated := (h.remaining other source hrelated).symm
  take count source other hrelated :=
    let ⟨houtcome, hafter⟩ := h.take count other source hrelated
    ⟨houtcome.symm, hafter⟩

/-- Sources that hold their bytes simulate each other if the same bytes are left in them. -/
theorem Source.simulates_of_rest {σ τ : Type} [LawfulSource σ] [LawfulSource τ]
    {related : σ → τ → Prop}
    (hrest : ∀ source other, related source other →
      LawfulSource.rest source = LawfulSource.rest other)
    (hskip : ∀ count source other, related source other →
      related (LawfulSource.skip count source) (LawfulSource.skip count other)) :
    Source.Simulates related where
  remaining source other h := by
    rw [LawfulSource.remaining_eq, LawfulSource.remaining_eq, hrest source other h]
  take count source other h := by
    rcases Nat.lt_or_ge (LawfulSource.rest source).length count with hshort | hlong
    · rw [LawfulSource.take_of_lt hshort, LawfulSource.take_of_lt (hrest source other h ▸ hshort),
        hrest source other h]
      exact ⟨rfl, h⟩
    · rw [LawfulSource.take_of_le hlong, LawfulSource.take_of_le (hrest source other h ▸ hlong),
        hrest source other h]
      exact ⟨rfl, hskip count source other h⟩

namespace Reading

variable {σ τ α β : Type} {related : σ → τ → Prop}

/-- Both readings give the same on related sources and leave them related. -/
def Agrees (related : σ → τ → Prop) (first : Reading σ α) (second : Reading τ α) : Prop :=
  ∀ source other, related source other →
    (first.run source).1 = (second.run other).1 ∧
      related (first.run source).2 (second.run other).2

theorem Agrees.map {first : Reading σ α} {second : Reading τ α} (f : α → β)
    (h : Agrees related first second) : Agrees related (f <$> first) (f <$> second) := by
  intro source other hrelated
  rw [run_map, run_map]
  obtain ⟨houtcome, hafter⟩ := h source other hrelated
  exact ⟨congrArg (Except.map f) houtcome, hafter⟩

end Reading

namespace Source

open Reading

variable {σ τ : Type} [Source σ] [Source τ] {related : σ → τ → Prop}

theorem Simulates.readBytes (h : Simulates related) (count : Nat) :
    Agrees related (readBytes count) (readBytes count) :=
  h.take count

theorem Simulates.readNat (h : Simulates related) (count : Nat) :
    Agrees related (readNat count) (readNat count) :=
  (h.readBytes count).map _

theorem Simulates.readUInt8 (h : Simulates related) : Agrees related readUInt8 readUInt8 :=
  (h.readNat 1).map _

theorem Simulates.readUInt16 (h : Simulates related) : Agrees related readUInt16 readUInt16 :=
  (h.readNat 2).map _

theorem Simulates.readUInt32 (h : Simulates related) : Agrees related readUInt32 readUInt32 :=
  (h.readNat 4).map _

theorem Simulates.readUInt64 (h : Simulates related) : Agrees related readUInt64 readUInt64 :=
  (h.readNat 8).map _

theorem Simulates.readUnsigned (h : Simulates related) (width : Width) :
    Agrees related (readUnsigned width) (readUnsigned width) := by
  rw [readUnsigned_eq_map, readUnsigned_eq_map]
  exact (h.readNat width.bytes).map _

end Source

/-! ## Recorded sources -/

/-- A source and the bytes that were read from it. -/
structure Recorded (σ : Type) where
  source : σ
  consumed : List UInt8

namespace Recorded

variable {σ : Type}

def start (source : σ) : Recorded σ where
  source := source
  consumed := []

def take [Source σ] (count : Nat) (recorded : Recorded σ) :
    Except StreamError (List UInt8) × Recorded σ :=
  match Source.take count recorded.source with
  | (.ok bytes, source) => (.ok bytes, { source, consumed := recorded.consumed ++ bytes })
  | (.error error, source) => (.error error, { recorded with source })

variable [Source σ]

theorem take_eq (count : Nat) (recorded : Recorded σ) :
    (recorded.take count).1 = (Source.take count recorded.source).1 ∧
      (recorded.take count).2.source = (Source.take count recorded.source).2 := by
  rw [take]
  rcases Source.take count recorded.source with ⟨outcome, source⟩
  cases outcome <;> exact ⟨rfl, rfl⟩

instance : Source (Recorded σ) where
  remaining recorded := Source.remaining recorded.source
  take := take
  length_of_take {count recorded bytes} h := by
    rw [(recorded.take_eq count).1] at h
    exact Source.length_of_take h

/-- Recording changes nothing that a read can show. -/
theorem simulates :
    Source.Simulates fun (source : σ) (recorded : Recorded σ) => recorded.source = source where
  remaining source recorded h := by
    rw [← h]
    rfl
  take count source recorded h := by
    rw [← h]
    obtain ⟨houtcome, hsource⟩ := recorded.take_eq count
    exact ⟨houtcome.symm, hsource⟩

theorem take_eq_ok {count : Nat} {before after : Recorded σ} {bytes : List UInt8}
    (h : Source.take count before = (.ok bytes, after)) :
    Source.take count before.source = (.ok bytes, after.source) ∧
      after.consumed = before.consumed ++ bytes := by
  change before.take count = _ at h
  rw [take] at h
  generalize Source.take count before.source = result at h
  rcases result with ⟨outcome, source⟩
  cases outcome with
  | error error => cases h
  | ok bytes =>
    cases h
    exact ⟨rfl, rfl⟩

/-- The record grows by what is read. -/
theorem consumed_of_reads {before after : Recorded σ} {bytes : List UInt8}
    (h : Source.Reads before bytes after) : after.consumed = before.consumed ++ bytes := by
  induction h with
  | done => rw [List.append_nil]
  | step htake _ ih => rw [ih, (take_eq_ok htake).2, List.append_assoc]

/-- What is read from a recorded source is read from the source. -/
theorem reads_source {before after : Recorded σ} {bytes : List UInt8}
    (h : Source.Reads before bytes after) : Source.Reads before.source bytes after.source := by
  induction h with
  | done => exact .done _
  | step htake _ ih => exact .step (take_eq_ok htake).1 ih

end Recorded

end RecordCodec
