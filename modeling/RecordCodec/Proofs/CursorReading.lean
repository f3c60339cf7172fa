import RecordCodec.Proofs.BoundedNesting

/-!
# Reading from a cursor

A cursor may stand anywhere, also past the end of its bytes.  What is read from it is what a reader
over the bytes from there on would give, and the two move on together.  A read that asks for too
much is refused before a buffer is filled, so the end of the file never shows as a fault of the
transport.
-/

namespace RecordCodec

variable {n : Nat} {data : Array UInt8} {position : Nat}

/-! ## A cursor and a reader side by side -/

/-- The reader over the bytes of `data` from `position` on; past the end there are none. -/
def Reader.ofTail (data : Array UInt8) (position : Nat) : Reader :=
  .ofList (data.toList.drop position)

/-- The cursor that has come as far from `position` as the reader has come from its start. -/
def Cursor.alongside (data : Array UInt8) (position : Nat) (reader : Reader) : Cursor where
  data := data
  position := position + reader.position

/-- The reader goes over the bytes from `position` on, and the cursor is alongside. -/
def Cursor.Accompanies (data : Array UInt8) (position : Nat) (cursor : Cursor) (reader : Reader) :
    Prop :=
  cursor = .alongside data position reader ∧ reader.data = (data.toList.drop position).toArray

theorem Cursor.accompanies_start (data : Array UInt8) (position : Nat) :
    Cursor.Accompanies data position ⟨data, position⟩ (.ofTail data position) :=
  ⟨rfl, rfl⟩

theorem Cursor.accompanies_simulates (data : Array UInt8) (position : Nat) :
    Source.Simulates (Cursor.Accompanies data position) := by
  apply Source.simulates_of_rest
  · rintro _ reader ⟨rfl, hdata⟩
    change (Cursor.alongside data position reader).toReader.rest = reader.rest
    rw [Reader.rest_eq_drop, Reader.rest_eq_drop, hdata, List.drop_drop]
    rfl
  · rintro count _ reader ⟨rfl, hdata⟩
    refine ⟨?_, hdata⟩
    change Cursor.mk data (position + reader.position + count) =
      .mk data (position + (reader.position + count))
    rw [Nat.add_assoc]

/-! ## Whole runs -/

/-- Started at `position`, the cursor gives what a reader over the bytes from there on gives, be it
values or an error, and ends as much further as the reader has consumed.  No error is one of the
transport. -/
structure Cursor.ReadsAlike {α : Type} (data : Array UInt8) (position : Nat)
    (onCursor : Decoding Cursor α) (onReader : Decoding Reader α) : Prop where
  run_eq : onCursor.run ⟨data, position⟩ = (onReader.run (.ofTail data position)).map
    fun result => (result.1, .alongside data position result.2)
  untransported : ∀ error after, onCursor.run ⟨data, position⟩ = some (.error error, after) →
    error.Untransported

theorem Cursor.ReadsAlike.of_follows {α : Type} {onCursor : Decoding Cursor α}
    {onReader : Decoding Reader α}
    (hcursor : onCursor.Follows (Cursor.Accompanies data position) onReader)
    (hreader : onReader.Follows (Function.swap (Cursor.Accompanies data position)) onCursor)
    (hfails : onCursor.FailsWith CodecError.Untransported) :
    Cursor.ReadsAlike data position onCursor onReader where
  run_eq := Decoding.Follows.run_eq_map hcursor hreader (fun _ _ h => h.1)
    (Cursor.accompanies_start data position)
  untransported := hfails _

/-- The core was generated from an entry of its registry, which may have answered any requests
before, whatever the definitions were then. -/
def CoreCodec.GeneratedWithin (core : CoreCodec n) : Prop :=
  ∃ catalog schema limits registry, Registry.Reachable registry ∧
    registry.get? schema.record = some (.ok schema) ∧
      ((CoreCodec.generate catalog schema limits).run registry).1 = .ok core

theorem Registry.Reachable.grown {registry : Registry n} (h : registry.Reachable) :
    registry.Grown :=
  h.of_steps .empty fun _ _ hstep =>
    hstep.keeps admits_grown fun _ hgrown => hgrown.coherent.sound

/-- Reading ends if the depth is limited, whatever the source is. -/
theorem CoreCodec.GeneratedWithin.ends {core : CoreCodec n} (h : core.GeneratedWithin)
    (hlimit : core.limits.nestingDepth < maxCount) {σ : Type} [Source σ] :
    Decoding.Ends (core.decodeUnchecked : Decoding σ (List Value)) ∧
      Decoding.Ends (core.decodeChecked : Decoding σ (List Value)) := by
  obtain ⟨catalog, schema, limits, registry, hregistry, hget, hrun⟩ := h
  have hgenerate := (upholds_bounded limits catalog).generate schema registry
    ⟨hregistry.grown, hget⟩
  obtain ⟨hyields, -⟩ := hgenerate.1 core hrun
  have hbounded : core.Bounded limits := hyields core rfl
  have hlimits := hbounded.limits_eq ▸ hlimit
  have hsound := hregistry.grown.coherent.sound
  have hformed : core.program.WellFormed := (generate_maintains catalog
    (hsound _ _ hget schema rfl).admissible limits registry hsound).2 core hrun
  have hunchecked : Decoding.Ends (core.decodeUnchecked : Decoding σ (List Value)) := by
    intro source
    obtain ⟨result, hresult, -⟩ := hbounded.exists_run hlimits hformed source
    simp [hresult]
  exact ⟨hunchecked, decodeChecked_ends hunchecked⟩

/-- Reading from a cursor is reading from the bytes behind its position, checked or not, wherever
it stands: the outcome is the same, the cursor moves on by what is consumed, whether reading
succeeds or fails, and no fault of the transport shows.  Reading ends at all with every core that
was generated from an entry of its registry. -/
theorem CoreCodec.decode_from_cursor (core : CoreCodec n) (data : Array UInt8) (position : Nat) :
    Cursor.ReadsAlike data position core.decodeUnchecked core.decodeUnchecked ∧
      Cursor.ReadsAlike data position core.decodeChecked core.decodeChecked ∧
      (core.GeneratedWithin → core.limits.nestingDepth < maxCount →
        core.decodeUnchecked.run (Cursor.mk data position) ≠ none ∧
          core.decodeChecked.run (Cursor.mk data position) ≠ none) := by
  have hcursor := Cursor.accompanies_simulates data position
  refine ⟨?_, ?_, fun hcore hlimit => ?_⟩
  · exact .of_follows (Program.decodeUnchecked_follows hcursor)
      (Program.decodeUnchecked_follows hcursor.flip) Program.decodeUnchecked_untransported
  · exact .of_follows (Program.decodeChecked_follows hcursor)
      (Program.decodeChecked_follows hcursor.flip)
      (Program.decodeChecked_failsWith Program.decodeUnchecked_untransported fun _ _ _ => trivial)
  · obtain ⟨hunchecked, hchecked⟩ := hcore.ends hlimit (σ := Cursor)
    exact ⟨hunchecked _, hchecked _⟩

namespace Sample

theorem labelCore_generatedWithin : labelCore.GeneratedWithin :=
  ⟨catalog, labelSchema, .standard, ((Registry.schema catalog 0).run .empty).2,
    .step .empty (.schema catalog 0 .empty), rfl, by with_unfolding_all rfl⟩

/-- The point of a label is read before its text turns out to be missing, and the cursor stays
behind the point; past the end nothing is read and the cursor does not move. -/
theorem label_from_cursor :
    (labelCore.decodeUnchecked.run (Cursor.mk #[9, 0, 1, 7] 1) =
        some (.error (.stream (.unexpectedEnd 2 0)), Cursor.mk #[9, 0, 1, 7] 4) ∧
      labelCore.decodeChecked.run (Cursor.mk #[9, 0, 1, 7] 8) =
        some (.error (.stream (.unexpectedEnd 2 0)), Cursor.mk #[9, 0, 1, 7] 8)) ∧
      labelCore.decodeUnchecked.run (Cursor.mk #[9, 0, 1, 7] 2) ≠ none := by
  obtain ⟨hunchecked, -, hends⟩ := CoreCodec.decode_from_cursor labelCore #[9, 0, 1, 7] 1
  obtain ⟨-, hchecked, -⟩ := CoreCodec.decode_from_cursor labelCore #[9, 0, 1, 7] 8
  refine ⟨⟨hunchecked.run_eq.trans ?_, hchecked.run_eq.trans ?_⟩, ?_⟩
  · rfl
  · rfl
  · exact ((CoreCodec.decode_from_cursor labelCore #[9, 0, 1, 7] 2).2.2
      labelCore_generatedWithin (by decide)).1

end Sample

end RecordCodec
