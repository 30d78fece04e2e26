import ArtifactIndex.Coordinate.Basic
/-!
Reading coordinates. A revision is `group:artifact:version`; an archive may name its extension and
its classifier between artifact and version, and an empty extension stands for the usual one.
-/

set_option autoImplicit false

namespace ArtifactIndex
namespace Coordinate

inductive Fault where
  | revisionParts
  | archiveParts
  | emptyName
  | badVersion (e : Version.Error)
  deriving DecidableEq, Repr

namespace Fault

def message : Fault → String
  | revisionParts => "expected group:artifact:version"
  | archiveParts => "expected group:artifact[:extension[:classifier]]:version"
  | emptyName => "group and artifact must not be empty"
  | badVersion e => e.message

end Fault

structure Error where
  text : String
  fault : Fault
  deriving DecidableEq, Repr

namespace Error

def message (e : Error) : String :=
  s!"Invalid coordinates '{e.text}': {e.fault.message}"

end Error

/-- The parts between the colons, white space around the whole left out. -/
def parts (s : String) : List String :=
  (Text.splitBy (· == ':') (Text.trimChars s.toList)).map String.ofList

def readVersion (s : String) : Except Fault Version :=
  (Version.parse s).mapError .badVersion

def readRevision : List String → Except Fault Revision
  | [group, artifact, version] =>
    if group = "" ∨ artifact = "" then .error .revisionParts
    else (readVersion version).map fun v ↦ ⟨⟨group, artifact⟩, v⟩
  | _ => .error .revisionParts

def readArchiveParts (group artifact extension classifier version : String) :
    Except Fault Archive :=
  if group = "" ∨ artifact = "" then .error .emptyName
  else
    (readVersion version).map fun v ↦
      { revision := ⟨⟨group, artifact⟩, v⟩
        extension := if extension = "" then Archive.defaultExtension else extension
        classifier := classifier }

def readArchive : List String → Except Fault Archive
  | [g, a, v] => readArchiveParts g a "" "" v
  | [g, a, e, v] => readArchiveParts g a e "" v
  | [g, a, e, c, v] => readArchiveParts g a e c v
  | _ => .error .archiveParts

end Coordinate

namespace Revision

def parse (s : String) : Except Coordinate.Error Revision :=
  (Coordinate.readRevision (Coordinate.parts s)).mapError (⟨s, ·⟩)

end Revision

namespace Archive

def parse (s : String) : Except Coordinate.Error Archive :=
  (Coordinate.readArchive (Coordinate.parts s)).mapError (⟨s, ·⟩)

end Archive
end ArtifactIndex
