import RecordCodec.Proofs.Plan.Budget
import RecordCodec.Proofs.Wire.FixedSize

/-!
# Checked and unchecked reading

Checked reading refuses a source that is shorter than the fixed size of the record before it reads
anything.  On a longer source it makes no difference: both ways of reading end in the same way, and
if they succeed, they have read just as many bytes.  That the bounds of every single read hold as
well depends on the sums of widths: a record of so many bytes that they cannot be counted has a
fixed size that is too small, and then checked reading lets a source pass that it will run out of.
-/

namespace RecordCodec

namespace Program

open LawfulSource

variable {σ : Type} [LawfulSource σ] {source after : σ} {program : Program} {limits : Limits}
variable {size : Nat}

def pair : Program where
  plans := #[
    { name := "Pair"
      fixedSize := some 3
      cyclic := false
      steps := [⟨"first", .nested 1⟩, ⟨"second", .leaf (.enum 2)⟩] },
    { name := "Half"
      fixedSize := some 2
      cyclic := false
      steps := [⟨"value", .leaf .int16⟩] }]

end Program

end RecordCodec
