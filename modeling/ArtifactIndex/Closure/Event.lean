import ArtifactIndex.Resource.Basic
/-!
What the work on one revision reports: the revisions it depends on, the dependencies that name no
revision, and at last how it ended.
-/

set_option autoImplicit false

namespace ArtifactIndex

inductive Outcome where
  /-- A resource was built. -/
  | indexed
  /-- The repository has no archive of the revision. -/
  | missing
  /-- There is an archive but no resource could be built. -/
  | failed
  /-- The work crashed. -/
  | aborted
  deriving DecidableEq, Repr

inductive Event where
  | discovered (source revision : Revision)
  | unbound (source : Revision) (dependency : String)
  | finished (revision : Revision) (outcome : Outcome) (resource : Option Resource)
  deriving DecidableEq

end ArtifactIndex
