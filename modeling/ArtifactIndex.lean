import ArtifactIndex.Dependency.Json
import ArtifactIndex.Index.Seeded
import ArtifactIndex.Json.Settled
import ArtifactIndex.Proofs.Closure.Protocol
import ArtifactIndex.Repository.Scripted
import ArtifactIndex.Proofs.Closure.Safety
import ArtifactIndex.Proofs.Closure.Completion
import ArtifactIndex.Proofs.Closure.Schedule
import ArtifactIndex.Proofs.Closure.Resolution
import ArtifactIndex.Proofs.Order.Rank
import ArtifactIndex.Proofs.Range.Cut
import ArtifactIndex.Proofs.Range.Intersection
import ArtifactIndex.Proofs.Range.Grammar
import ArtifactIndex.Proofs.Range.Reading
import ArtifactIndex.Proofs.Range.Separated
import ArtifactIndex.Proofs.Range.Gaps
import ArtifactIndex.Proofs.Range.Complement
import ArtifactIndex.Proofs.Closure.Recording
import ArtifactIndex.Proofs.Closure.Worker
import ArtifactIndex.Proofs.Range.Coverage
import ArtifactIndex.Proofs.Text.LowerCase
import ArtifactIndex.Proofs.Text.Padding
import ArtifactIndex.Proofs.Version.Reading
import ArtifactIndex.Proofs.Version.Scan
import ArtifactIndex.Proofs.Version.Release
import ArtifactIndex.Proofs.Version.ReleaseOrder
import ArtifactIndex.Proofs.Json.Lexing
import ArtifactIndex.Proofs.Json.Reading
import ArtifactIndex.Proofs.Json.Record
import ArtifactIndex.Proofs.Resource.Json
import ArtifactIndex.Proofs.FileSystem.AtomicWrite
import ArtifactIndex.Proofs.Index.Persistence
import ArtifactIndex.Proofs.Range.Invariant
import ArtifactIndex.Proofs.Range.RoundTrip
import ArtifactIndex.Proofs.FileSystem.FailedWrite
import ArtifactIndex.Proofs.Closure.Sparing
import ArtifactIndex.Proofs.Index.Failure
import ArtifactIndex.Proofs.Order.Coherence
import ArtifactIndex.Proofs.Version.Transitivity
import ArtifactIndex.Proofs.Closure.History
import ArtifactIndex.Proofs.Json.Compact
import ArtifactIndex.Proofs.Index.Arrangement
import ArtifactIndex.Proofs.Coordinate.Reading
import ArtifactIndex.Proofs.Index.Source
import ArtifactIndex.Proofs.Coordinate.Order
import ArtifactIndex.Proofs.Closure.Selection
import ArtifactIndex.Proofs.Closure.Binding
import ArtifactIndex.Proofs.Dependency.Followed
import ArtifactIndex.Proofs.Closure.Discovery
import ArtifactIndex.Proofs.Version.Trailing
import ArtifactIndex.Proofs.Coordinate.RoundTrip
import ArtifactIndex.Proofs.Coordinate.Json
import ArtifactIndex.Proofs.Dependency.Json
import ArtifactIndex.Proofs.FileSystem.Pruning
import ArtifactIndex.Proofs.Closure.Upkeep
import ArtifactIndex.Proofs.Range.Emptiness
import ArtifactIndex.Proofs.Version.Switch
import ArtifactIndex.Proofs.Index.Query
import ArtifactIndex.Proofs.FileSystem.AllOrNothing
import ArtifactIndex.Proofs.Version.NormalForm
