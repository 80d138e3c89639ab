import BinaryLayout.Main
import BinaryLayout.Proofs.BufferRuns
import BinaryLayout.Proofs.FieldCodec
import BinaryLayout.Proofs.Fields
import BinaryLayout.Proofs.IntegerCodec
import BinaryLayout.Proofs.NegativeOffsets
import BinaryLayout.Proofs.Placements
import BinaryLayout.Proofs.RealCodec
import BinaryLayout.Proofs.Records
import BinaryLayout.Proofs.RoundTrip
import BinaryLayout.Proofs.Sessions
import BinaryLayout.Proofs.Utf8Codec
import BinaryLayout.Proofs.Writes
import BinaryLayout.Session.BufferStep
import BinaryLayout.Stream.Connection
import BinaryLayout.Proofs.Frames
import BinaryLayout.Proofs.Grammar
import BinaryLayout.Proofs.Refusals
import BinaryLayout.Proofs.AcceptedDescriptors
import BinaryLayout.Proofs.LayoutAgreement
import BinaryLayout.Proofs.Validity
import BinaryLayout.Proofs.SizeBounds
import BinaryLayout.Proofs.CompileCache
import BinaryLayout.Proofs.Transfers
import BinaryLayout.Proofs.Directories
import BinaryLayout.Proofs.RecordStreams
import BinaryLayout.Proofs.FailedWrites
import BinaryLayout.Proofs.Translations
import BinaryLayout.Proofs.Concatenation
import BinaryLayout.Proofs.ByteOrders
import BinaryLayout.Proofs.StreamSteps
import BinaryLayout.Proofs.RawStreams
import BinaryLayout.Proofs.EncodableValues
import BinaryLayout.Proofs.PackingDemands
import BinaryLayout.Proofs.CutTexts
import BinaryLayout.Proofs.Schedules
import BinaryLayout.Proofs.RecordSequences
import BinaryLayout.Proofs.LeastPlacements
import BinaryLayout.Proofs.RoomAtOffsets
import BinaryLayout.Proofs.RefusedDescriptors
import BinaryLayout.Proofs.StreamPositions
import BinaryLayout.Proofs.RepeatCounts
import BinaryLayout.Proofs.IntegerRanges
import BinaryLayout.Proofs.NearestPatterns
import BinaryLayout.Proofs.SinglePrecision
import BinaryLayout.Proofs.ClosedFiles
import BinaryLayout.Proofs.StreamOwnership
import BinaryLayout.Proofs.HandmadeFormats
import BinaryLayout.Proofs.LogRecords
import BinaryLayout.Proofs.Dumps
