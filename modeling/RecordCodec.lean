import RecordCodec.Stream.Endpoint
import RecordCodec.Stream.Item
import RecordCodec.Record.Definition
import RecordCodec.Record.Fingerprint
import RecordCodec.Layout.Registry
import RecordCodec.Value.Basic
import RecordCodec.Plan.Compile
import RecordCodec.Plan.Decode
import RecordCodec.Plan.Encode
import RecordCodec.Codec.Cache
import RecordCodec.Gallery
import RecordCodec.Proofs.DecidedWriting
import RecordCodec.Proofs.RoundTrip
import RecordCodec.Proofs.CheckedDecoding
import RecordCodec.Proofs.Codec.Consistency
import RecordCodec.Proofs.Codec.Transparency
import RecordCodec.Proofs.CyclicRecords
import RecordCodec.Proofs.Record.Fingerprint
import RecordCodec.Proofs.Layout.Ranks
import RecordCodec.Proofs.Plan.OpenRecords
import RecordCodec.Proofs.Codec.Upkeep
import RecordCodec.Proofs.BoundedNesting
import RecordCodec.Proofs.Flattening
import RecordCodec.Proofs.Codec.Rejection
import RecordCodec.Proofs.Codec.Acceptance
import RecordCodec.Proofs.Codec.Permanence
import RecordCodec.Proofs.Wire.Conformance
import RecordCodec.Proofs.FirstFault
import RecordCodec.Proofs.Record.Sizes
import RecordCodec.Proofs.Record.Twins
import RecordCodec.Proofs.Plan.Naming
import RecordCodec.Proofs.Interchange
import RecordCodec.Proofs.Record.Searches
import RecordCodec.Proofs.Layout.Reference
import RecordCodec.Proofs.ConstantLength
import RecordCodec.Proofs.Truncation
import RecordCodec.Proofs.AcyclicNesting
import RecordCodec.Proofs.TypedReading
import RecordCodec.Proofs.CursorReading
import RecordCodec.Proofs.Layout.Reentry
import RecordCodec.Proofs.Codec.Entries
import RecordCodec.Proofs.Record.ShapeWalk
import RecordCodec.Proofs.Stream.ReadingBack
import RecordCodec.Proofs.Stream.ReaderBounds
