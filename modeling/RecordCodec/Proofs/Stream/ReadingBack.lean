import RecordCodec.Proofs.Stream.Items

/-!
# Reading back what was written

Items are tried one after another on a sink, and some may be refused: for want of room, or because a
number is too large for its width.  A refused item leaves no trace.  So the sink holds the bytes of
the others, one behind the other, and whoever knows the types of these reads them back, from a
reader or from a cursor, and comes to the end of what was written.
-/

namespace RecordCodec

/-! ## Writing -/

namespace Item

variable {κ : Type}

/-- Tries to write the items one after another: those that were written, and the sink in the end. -/
def writeEach [Sink κ] (items : List Item) (sink : κ) : List Item × κ :=
  tryEach (items.map fun item => (fun _ => item) <$> item.write) sink

variable [LawfulSink κ] {item : Item} {items : List Item} {before sink after : κ}

/-- In the one sink the bytes of the items stand behind what is in the other. -/
structure StandBehind (before : κ) (items : List Item) (after : κ) : Prop where
  written_eq : LawfulSink.written after = LawfulSink.written before ++ items.flatMap bytes
  fits : ∀ item ∈ items, item.Fits

theorem StandBehind.start (before : κ) : StandBehind before [] before where
  written_eq := (List.append_nil _).symm
  fits := nofun

theorem StandBehind.write (h : StandBehind before items sink)
    (hwrite : item.write.run sink = (.ok (), after)) :
    StandBehind before (items ++ [item]) after := by
  rcases item.fits_or_refused (Sink.capacity sink) with ⟨hfits, hroom⟩ | ⟨error, hrefused⟩
  · rw [run_write_of_le hfits hroom] at hwrite
    cases hwrite
    refine ⟨?_, fun other hother => ?_⟩
    · rw [LawfulSink.written_append hroom, h.written_eq, List.flatMap_append,
        List.flatMap_singleton, List.append_assoc]
    · rcases List.mem_append.1 hother with hearlier | hlast
      · exact h.fits other hearlier
      · obtain rfl := List.mem_singleton.1 hlast
        exact hfits
  · rw [run_write_of_refused hrefused] at hwrite
    cases hwrite

/-- However many items are refused on the way, the others stand in the sink. -/
theorem standBehind_writeEach (items : List Item) (sink : κ) :
    StandBehind sink (writeEach items sink).1 (writeEach items sink).2 := by
  have hrun : StandBehind sink ([] ++ (writeEach items sink).1) (writeEach items sink).2 := by
    refine tryEach_induction (motive := StandBehind sink) ?_ ?_ (.start sink)
    · intro step hstep values reached value after hstands hrun
      obtain ⟨item, -, rfl⟩ := List.mem_map.1 hstep
      obtain ⟨_, hwrite, rfl⟩ := Reading.map_eq_ok_iff.1 hrun
      exact hstands.write hwrite
    · intro step hstep values reached error after hstands hrun
      obtain ⟨item, -, rfl⟩ := List.mem_map.1 hstep
      obtain ⟨rfl, -⟩ := run_write_eq_error_iff.1 (Reading.map_eq_error_iff.1 hrun)
      exact hstands
  exact hrun

end Item

/-! ## Reading -/

def ItemType.readAll {σ : Type} [Source σ] (types : List ItemType) : Reading σ (List Item) :=
  types.mapM ItemType.read

theorem ItemType.readAll_cons {σ : Type} [Source σ] (type : ItemType) (types : List ItemType) :
    (readAll (type :: types) : Reading σ (List Item)) =
      type.read >>= fun item => (item :: ·) <$> readAll types := by
  rw [readAll, List.mapM_cons]
  simp only [map_eq_pure_bind, readAll]

/-- Items whose bytes come next are read back, and nothing else is. -/
theorem LawfulSource.run_readAll {σ : Type} [LawfulSource σ] {items : List Item} {source : σ}
    {unread : List UInt8} (hfits : ∀ item ∈ items, item.Fits)
    (hrest : rest source = items.flatMap Item.bytes ++ unread) :
    (ItemType.readAll (items.map Item.type)).run source =
      (.ok items, skip (items.flatMap Item.bytes).length source) := by
  induction items generalizing source with
  | nil =>
    rw [List.flatMap_nil, List.length_nil, skip_zero]
    rfl
  | cons item items ih =>
    rw [List.flatMap_cons, List.append_assoc] at hrest
    have hread : item.type.read.run source = (.ok item, skip item.bytes.length source) := by
      refine ItemType.read_eq_ok_iff.2 ⟨rfl, hfits item List.mem_cons_self, ?_⟩
      rw [← item.length_bytes]
      exact take_of_rest_eq hrest
    have hothers := ih (fun other hother => hfits other (List.mem_cons_of_mem _ hother))
      (rest_skip_of_rest_eq hrest)
    rw [skip_skip, ← List.length_append, ← List.flatMap_cons] at hothers
    rw [List.map_cons, ItemType.readAll_cons, Reading.run_bind, hread]
    exact Reading.map_eq_ok_iff.2 ⟨items, hothers, rfl⟩

/-! ## Both -/

namespace Item

/-- The items, and no others, were written one after another, while `before` became `after`.  Their
bytes stand behind what stood there before, and they are read back from where these begin to the
very end, by a reader and by a cursor.  Whatever comes next is written, or refused for a reason, and
if it is refused nothing changes. -/
structure ReadBack {κ : Type} [Sink κ] (written : κ → List UInt8) (before : κ) (items : List Item)
    (after : κ) : Prop where
  written_eq : written after = written before ++ items.flatMap bytes
  reader_eq : (ItemType.readAll (items.map type)).run
      (Reader.mk (written after).toArray (written before).length) =
    (.ok items, Reader.mk (written after).toArray (written after).length)
  cursor_eq : (ItemType.readAll (items.map type)).run
      (Cursor.mk (written after).toArray (written before).length) =
    (.ok items, Cursor.mk (written after).toArray (written after).length)
  refused_iff : ∀ (next : Item) (error : StreamError) (last : κ),
    next.write.run after = (.error error, last) ↔
      last = after ∧ next.Refused (Sink.capacity after) error

theorem StandBehind.readBack {κ : Type} [LawfulSink κ] {before after : κ} {items : List Item}
    (h : StandBehind before items after) :
    ReadBack LawfulSink.written before items after := by
  have hrest : (Reader.mk (LawfulSink.written after).toArray
      (LawfulSink.written before).length).rest = items.flatMap bytes ++ [] := by
    rw [Reader.rest_eq_drop, h.written_eq, List.drop_left, List.append_nil]
  have hend : (LawfulSink.written before).length + (items.flatMap bytes).length =
      (LawfulSink.written after).length := by
    rw [h.written_eq, List.length_append]
  refine ⟨h.written_eq, ?_, ?_, fun next error last => run_write_eq_error_iff⟩
  · rw [LawfulSource.run_readAll h.fits hrest, ← hend]
    rfl
  · have hcursor : LawfulSource.rest (Cursor.mk (LawfulSink.written after).toArray
        (LawfulSink.written before).length) = items.flatMap bytes ++ [] := hrest
    rw [LawfulSource.run_readAll h.fits hcursor, ← hend]
    rfl

/-- Whatever items are tried on a buffer of any length, or on a growing byte string, those that were
written stand there in order, big-endian and with nothing in between, and can be read back. -/
theorem written_items_read_back (items : List Item) :
    (∀ buffer : Buffer,
      ReadBack Buffer.written buffer (writeEach items buffer).1 (writeEach items buffer).2) ∧
    ∀ output : Growing,
      ReadBack Growing.written output (writeEach items output).1 (writeEach items output).2 :=
  ⟨fun buffer => (standBehind_writeEach items buffer).readBack,
    fun output => (standBehind_writeEach items output).readBack⟩

/-- Of four items, the second is too large for its width, and the third for the buffer. -/
example :
    writeEach [.int16 (-2), .unsigned .u8 256, .int64 1, .raw [7, 8]] (.zeroed 5) =
      ([.int16 (-2), .raw [7, 8]], Buffer.mk #[255, 254, 7, 8, 0] 4) := by
  decide

end Item

end RecordCodec
