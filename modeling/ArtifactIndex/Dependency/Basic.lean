import ArtifactIndex.Coordinate.Basic
import ArtifactIndex.Dependency.Scope
import ArtifactIndex.Range.Constraint
/-!
Dependencies as a build declares them. The version is kept as it was written: it may be a range, or
no version at all, and only `Dependency.revision` decides whether it names one revision.
-/

set_option autoImplicit false

namespace ArtifactIndex

structure Dependency where
  program : Program
  version : String
  scope : Scope
  optional : Bool
  deriving DecidableEq

namespace Dependency

def isRange (d : Dependency) : Bool :=
  Range.isRangeText d.version

def text (d : Dependency) : String :=
  s!"{d.program.text}:{d.version} ({d.scope.text})"

/-! ### The revision asked for -/

inductive UnboundFault where
  | range (version : String)
  | badVersion (e : Version.Error)
  deriving DecidableEq, Repr

namespace UnboundFault

def message : UnboundFault → String
  | range version => s!"version range {version} has not been bound"
  | badVersion e => e.message

end UnboundFault

structure Unbound where
  program : Program
  fault : UnboundFault
  deriving DecidableEq, Repr

namespace Unbound

def message (u : Unbound) : String :=
  s!"Dependency {u.program.text} is not bound to a version: {u.fault.message}"

end Unbound

def revision (d : Dependency) : Except Unbound Revision :=
  if d.isRange then .error ⟨d.program, .range d.version⟩
  else
    match Version.parse d.version with
    | .ok v => .ok ⟨d.program, v⟩
    | .error e => .error ⟨d.program, .badVersion e⟩

end Dependency

/-! ### Descriptors -/

/-- What a build declares, in the order of declaration. -/
structure BuildDescriptor where
  dependencies : List Dependency
  deriving DecidableEq

namespace BuildDescriptor

/-- Puts a dependency where its program belongs in a list sorted by program, in place of the one
that was there. -/
def insert (d : Dependency) : List Dependency → List Dependency
  | [] => [d]
  | e :: rest =>
    match compare d.program e.program with
    | .lt => d :: e :: rest
    | .eq => d :: rest
    | .gt => e :: insert d rest

/-- The last declaration of each program, by program. -/
def latest (ds : List Dependency) : List Dependency :=
  ds.foldl (fun sorted d ↦ insert d sorted) []

def inScope (b : BuildDescriptor) (scope : Scope) : List Dependency :=
  b.dependencies.filter (·.scope == scope)

def ofScope (b : BuildDescriptor) (scope : Scope) : List Dependency :=
  latest (b.inScope scope)

/-- The declarations a closure follows: for each program its last runtime declaration, or else its
last compile declaration. -/
def followed (b : BuildDescriptor) : List Dependency :=
  latest (Scope.followed.flatMap b.inScope)

end BuildDescriptor
end ArtifactIndex
