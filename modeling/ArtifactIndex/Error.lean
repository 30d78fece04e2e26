import ArtifactIndex.Settings
import ArtifactIndex.Coordinate.Reader
import ArtifactIndex.Dependency.Basic
/-!
Everything that can go wrong, by cause. A fault of the file system or of a document has no text of
its own; `Error.message` gives the others theirs.
-/

set_option autoImplicit false

namespace ArtifactIndex

inductive Error where
  | files
  | document
  | settings (e : Settings.Error)
  | version (e : Version.Error)
  | range (e : Range.Error)
  | coordinates (e : Coordinate.Error)
  | unbound (e : Dependency.Unbound)
  | repository (reason : String)
  | resource (archive : Archive) (reason : String)
  | noParent (path : String)
  | scope (e : Scope.Unknown)
  | budget
  deriving DecidableEq

namespace Error

def message : Error → String
  | files => "I/O Error"
  | document => "JSON Parsing Error"
  | settings e => e.message
  | version e => e.message
  | range e => e.message
  | coordinates e => e.message
  | unbound e => e.message
  | repository reason => s!"Repository Error: {reason}"
  | resource archive reason => s!"Resource Error for {archive.text}: {reason}"
  | noParent path => s!"IoError: Cannot get parent directory for {path}"
  | scope e => e.message
  | budget => "Generic Error: the resolution budget is used up"

def ofConstraint : Constraint.Error → Error
  | .version e => version e
  | .range e => range e

end Error
end ArtifactIndex
