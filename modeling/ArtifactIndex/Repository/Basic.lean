import ArtifactIndex.Error
import ArtifactIndex.Repository.Call
import ArtifactIndex.Resource.Basic
/-!
The collaborators of a resolution: a repository that knows revisions, files and build descriptors,
and a builder that describes a fetched archive. Transport and the formats behind them are theirs.
-/

set_option autoImplicit false

namespace ArtifactIndex

structure Repository (ρ : Type) where
  /-- The archive of a revision, none if the repository does not know it. -/
  resolveArchive : Revision → Call ρ (Except Error (Option Archive))
  /-- The sources that may hold snapshots, in the order they are asked. -/
  snapshotSources : Call ρ (List String)
  /-- When a source last updated a revision, none if it does not have the revision. -/
  metadataTimestamp : String → Revision → Call ρ (Except Error (Option Timestamp))
  /-- Where an archive is, or would be, cached. -/
  localFile : Archive → Call ρ String
  /-- Makes an archive available and tells where. -/
  fetch : Archive → Call ρ (Except Error String)
  /-- What the build of a revision declares, none if there is no declaration. -/
  buildDescriptor : Revision → Call ρ (Except Error (Option BuildDescriptor))
  /-- Every revision of a program that the repository knows. -/
  availableRevisions : Program → Call ρ (Except Error (List Revision))

abbrev Builder (ρ : Type) : Type :=
  String → Archive → Call ρ (Except Error Resource)

end ArtifactIndex
