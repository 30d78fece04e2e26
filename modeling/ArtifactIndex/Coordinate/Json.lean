import ArtifactIndex.Coordinate.Basic
import ArtifactIndex.Json.Record
import ArtifactIndex.Range.Reader
/-!
Versions, ranges and coordinates in documents. Versions and ranges are their texts, read as strictly
as anywhere else; coordinates are records.
-/

set_option autoImplicit false

namespace ArtifactIndex

namespace Version

def toJson (v : Version) : Json :=
  .ofString v.literal

def ofJson? (j : Json) : Option Version :=
  j.text?.bind fun s ↦ (parse s).toOption

end Version

namespace Range

def toJson (r : Range) : Json :=
  .ofString r.text

def ofJson? (j : Json) : Option Range :=
  j.text?.bind fun s ↦ (parse s).toOption

end Range

namespace Program

def toJson (p : Program) : Json :=
  .ofMembers [("group", .ofString p.group), ("artifact", .ofString p.artifact)]

def ofJson? (j : Json) : Option Program :=
  match j.fields? ["group", "artifact"] with
  | some [some group, some artifact] => do
    return ⟨← group.text?, ← artifact.text?⟩
  | _ => none

end Program

namespace Revision

def toJson (r : Revision) : Json :=
  .ofMembers [("program", r.program.toJson), ("version", r.version.toJson)]

def ofJson? (j : Json) : Option Revision :=
  match j.fields? ["program", "version"] with
  | some [some program, some version] => do
    return ⟨← Program.ofJson? program, ← Version.ofJson? version⟩
  | _ => none

end Revision

namespace Archive

def toJson (a : Archive) : Json :=
  .ofMembers [("revision", a.revision.toJson), ("extension", .ofString a.extension),
    ("classifier", .ofString a.classifier)]

def ofJson? (j : Json) : Option Archive :=
  match j.fields? ["revision", "extension", "classifier"] with
  | some [some revision, some extension, classifier] => do
    let revision ← Revision.ofJson? revision
    let extension ← extension.text?
    let classifier ← Json.orDefault "" Json.text? classifier
    return ⟨revision, extension, classifier⟩
  | _ => none

end Archive
end ArtifactIndex
