import FlatSchema.Main
import FlatSchema.Proofs.AcceptedUse
import FlatSchema.Proofs.CanonicalRoundTrip
import FlatSchema.Proofs.DisplayOrder
import FlatSchema.Proofs.DocPlacement
import FlatSchema.Proofs.Evolution
import FlatSchema.Proofs.FinishedHeader
import FlatSchema.Proofs.ForcedDefaults
import FlatSchema.Proofs.LegalValues
import FlatSchema.Proofs.LoadTiming
import FlatSchema.Proofs.MemberNames
import FlatSchema.Proofs.MergeOrder
import FlatSchema.Proofs.OpenObjects
import FlatSchema.Proofs.PackedTables
import FlatSchema.Proofs.ParserProgress
import FlatSchema.Proofs.ReadDepth
import FlatSchema.Proofs.RequiredFields
import FlatSchema.Proofs.RoomIndependence
import FlatSchema.Proofs.Scoping
import FlatSchema.Proofs.SlotSharing
import FlatSchema.Proofs.SpanNesting
import FlatSchema.Proofs.StoredStrings
import FlatSchema.Proofs.StreamProtocol
import FlatSchema.Proofs.StructBytes
import FlatSchema.Proofs.StructCycles
import FlatSchema.Proofs.VtableLookup
import FlatSchema.Source.Spot
