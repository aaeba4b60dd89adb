import AbiBridge.Decimal.Shortest
import AbiBridge.Decimal.Reading
import AbiBridge.Json.Reader
import AbiBridge.Json.Printer
import AbiBridge.Json.Decode
import AbiBridge.Storage.Word
import AbiBridge.Storage.Layout
import AbiBridge.Target
import AbiBridge.Semantic.Span
import AbiBridge.Semantic.ValueType
import AbiBridge.Semantic.Codec
import AbiBridge.Wrapper.Abi
import AbiBridge.Naming.Free
import AbiBridge.Wrapper.Module
import AbiBridge.Wrapper.Codec
import AbiBridge.Scope.Session
import AbiBridge.Diagnostic.Sink
import AbiBridge.Text.Blank
import AbiBridge.Marshal.Presence
import AbiBridge.Text.Lowercase
import AbiBridge.Digest.Sha256
import AbiBridge.Pipeline.Output
import AbiBridge.Machine.Trap
import AbiBridge.Machine.Interpreter
import AbiBridge.Machine.Script
import AbiBridge.Machine.Session
import AbiBridge.Proofs.FreshNames
import AbiBridge.Proofs.LegalNames
import AbiBridge.Proofs.DenseLayout
import AbiBridge.Proofs.DenseNumbering
import AbiBridge.Proofs.Odometer
import AbiBridge.Proofs.HeapCopy
import AbiBridge.Proofs.Effects
import AbiBridge.Proofs.SlicedView
import AbiBridge.Proofs.StridedView
import AbiBridge.Proofs.ScopeWalks
import AbiBridge.Proofs.ScopeHygiene
import AbiBridge.Proofs.Allocation
import AbiBridge.Proofs.ScopeSession
import AbiBridge.Proofs.ScopeNesting
import AbiBridge.Proofs.Marshalling
import AbiBridge.Proofs.Lowering
import AbiBridge.Proofs.ModuleNames
import AbiBridge.Proofs.Presence
import AbiBridge.Proofs.PresenceTree
import AbiBridge.Proofs.ArgumentCrossing
import AbiBridge.Proofs.ResultDelivery
import AbiBridge.Proofs.HostReturn
import AbiBridge.Proofs.ResultEncoding
import AbiBridge.Proofs.ManyResults
import AbiBridge.Proofs.OwnedResults
import AbiBridge.Proofs.Reporting
import AbiBridge.Proofs.MergedTotals
import AbiBridge.Proofs.Wrappable
import AbiBridge.Proofs.BoundOutputs
import AbiBridge.Proofs.FailureIsolation
import AbiBridge.Proofs.LossAccounting
import AbiBridge.Proofs.ParameterNames
import AbiBridge.Proofs.ClosedBodies
import AbiBridge.Proofs.PropertyRoundTrip
import AbiBridge.Proofs.Exposure
import AbiBridge.Proofs.HandleStability
import AbiBridge.Proofs.Destruction
import AbiBridge.Proofs.PointerChecks
import AbiBridge.Proofs.ClassMembers
import AbiBridge.Proofs.References
import AbiBridge.Proofs.ScopeMirror
import AbiBridge.Proofs.Origins
import AbiBridge.Proofs.LocalLookup
import AbiBridge.Proofs.InPlaceResults
import AbiBridge.Proofs.NumeralText
import AbiBridge.Proofs.JsonText
import AbiBridge.Proofs.Decoding
import AbiBridge.Proofs.ModuleRoundTrip
import AbiBridge.Proofs.ShortestDecimal
import AbiBridge.Proofs.DistinctDocuments
import AbiBridge.Proofs.CanonicalText
