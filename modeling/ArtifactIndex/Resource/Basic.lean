import ArtifactIndex.Coordinate.Reader
import ArtifactIndex.Resource.KeyMap
/-!
Resources describe archives by capabilities and requirements, each with attributes and directives
in a namespace. A resource remembers the revision it was built from in an information capability;
`Resource.source` reads it back.
-/

set_option autoImplicit false

namespace ArtifactIndex

inductive AttributeValue where
  | string (s : String)
  | long (n : Int64)
  | version (s : String)
  | list (items : List String)
  deriving DecidableEq

namespace AttributeValue

def text? : AttributeValue → Option String
  | string s => some s
  | version s => some s
  | _ => none

end AttributeValue

structure Capability where
  space : String
  attributes : KeyMap AttributeValue
  directives : KeyMap String
  deriving DecidableEq

namespace Capability

def ofAttributes (space : String) (attributes : List (String × AttributeValue)) : Capability :=
  ⟨space, .ofList attributes, .empty⟩

end Capability

structure Requirement where
  space : String
  attributes : KeyMap AttributeValue
  directives : KeyMap String
  deriving DecidableEq

structure Resource where
  capabilities : List Capability
  requirements : List Requirement
  deriving DecidableEq

namespace Resource

/-! ### Namespaces and keys -/

def identitySpace : String := "osgi.identity"

def contentSpace : String := "osgi.content"

def informationSpace : String := "bnd.info"

def nameKey : String := "name"

def fromKey : String := "from"

/-! ### Source -/

def inSpace (r : Resource) (space : String) : List Capability :=
  r.capabilities.filter (·.space == space)

/-- The text a capability gives for the revision it comes from. -/
def fromText? (c : Capability) : Option String :=
  (c.attributes.get? fromKey).bind AttributeValue.text?

/-- The first revision that an information capability names in readable form. -/
def source (r : Resource) : Option Revision :=
  ((r.inSpace informationSpace).filterMap fromText?).findSome? fun s ↦ (Revision.parse s).toOption

def isFrom (r : Resource) (p : Program) : Bool :=
  r.source.any (·.program == p)

end Resource
end ArtifactIndex
