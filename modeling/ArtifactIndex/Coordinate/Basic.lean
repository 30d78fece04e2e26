import ArtifactIndex.Version.Basic
/-!
Coordinates name what a repository holds. A program is a group and an artifact, a revision is a
program in one version, and an archive is one file of a revision, told apart by its extension and
classifier.
-/

set_option autoImplicit false

namespace ArtifactIndex

/-! ### Programs -/

structure Program where
  group : String
  artifact : String
  deriving DecidableEq, Repr

namespace Program

instance : Ord Program :=
  ⟨fun p q ↦ (compare p.group q.group).then (compare p.artifact q.artifact)⟩

def text (p : Program) : String :=
  p.group ++ ":" ++ p.artifact

/-- The directory of a program: the dots of its group are levels. -/
def path (p : Program) : String :=
  String.ofList (p.group.toList.map fun c ↦ if c = '.' then '/' else c) ++ "/" ++ p.artifact

/-- Reads `group:artifact`, split at the first colon. -/
def ofText? (s : String) : Option Program :=
  (Text.splitOnce ':' s.toList).map fun (group, artifact) ↦
    ⟨String.ofList group, String.ofList artifact⟩

end Program

/-! ### Revisions -/

structure Revision where
  program : Program
  version : Version
  deriving DecidableEq

namespace Revision

instance : Ord Revision :=
  ⟨fun r s ↦ (compare r.program s.program).then (compare r.version s.version)⟩

def isSnapshot (r : Revision) : Bool :=
  r.version.isSnapshot

def text (r : Revision) : String :=
  r.program.text ++ ":" ++ r.version.literal

def path (r : Revision) : String :=
  r.program.path ++ "/" ++ r.version.literal

end Revision

/-! ### Archives -/

structure Archive where
  revision : Revision
  extension : String
  classifier : String
  deriving DecidableEq

namespace Archive

/-- The extension of an archive that names none. -/
def defaultExtension : String := "jar"

def jar (r : Revision) : Archive :=
  ⟨r, defaultExtension, ""⟩

/-- The build descriptor of the same revision. -/
def pom (a : Archive) : Archive :=
  ⟨a.revision, "pom", ""⟩

def isSnapshot (a : Archive) : Bool :=
  a.revision.isSnapshot

/-- The classifier behind its separator, nothing when there is none. -/
def classifierPart (separator classifier : String) : String :=
  if classifier = "" then "" else separator ++ classifier

def fileName (a : Archive) : String :=
  a.revision.program.artifact ++ "-" ++ a.revision.version.literal ++
    classifierPart "-" a.classifier ++ "." ++ a.extension

def path (a : Archive) : String :=
  a.revision.path ++ "/" ++ a.fileName

def text (a : Archive) : String :=
  a.revision.program.text ++ ":" ++ a.extension ++ classifierPart ":" a.classifier ++ ":" ++
    a.revision.version.literal

end Archive
end ArtifactIndex
