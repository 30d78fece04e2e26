import ArtifactIndex.Coordinate.Json
import ArtifactIndex.Dependency.Basic
/-!
Dependencies in documents. A scope is its name, or an object with that name and the value null; a
dependency that leaves out its scope has scope `compile`.
-/

set_option autoImplicit false

namespace ArtifactIndex

namespace Scope

def toJson (s : Scope) : Json :=
  .ofString s.text

def ofJson? (j : Json) : Option Scope :=
  j.choice?.bind named?

end Scope

namespace Dependency

def toJson (d : Dependency) : Json :=
  .ofMembers [("program", d.program.toJson), ("version", .ofString d.version),
    ("scope", d.scope.toJson), ("optional", .bool d.optional)]

def ofJson? (j : Json) : Option Dependency :=
  match j.fields? ["program", "version", "scope", "optional"] with
  | some [some program, some version, scope, optional] => do
    let program ← Program.ofJson? program
    let version ← version.text?
    let scope ← Json.orDefault .compile Scope.ofJson? scope
    let optional ← Json.orDefault false Json.bool? optional
    return ⟨program, version, scope, optional⟩
  | _ => none

end Dependency

namespace BuildDescriptor

def toJson (b : BuildDescriptor) : Json :=
  .ofMembers [("dependencies", .array (b.dependencies.map Dependency.toJson))]

def ofJson? (j : Json) : Option BuildDescriptor :=
  match j.fields? ["dependencies"] with
  | some [some dependencies] => (Json.list? Dependency.ofJson? dependencies).map (⟨·⟩)
  | _ => none

end BuildDescriptor
end ArtifactIndex
