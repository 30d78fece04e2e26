import ArtifactIndex.Coordinate.Json
import ArtifactIndex.Proofs.Json.Record
import ArtifactIndex.Proofs.Version.Reading

/-!
# Coordinates read back from documents

The document of a version holds its literal, which is trimmed and checked again when it is read, and
gives the version back (`Version.ofJson?_toJson`). Programs, revisions and archives are records of
such parts and are given back part by part, whatever texts their names hold.
-/

set_option autoImplicit false
set_option relaxedAutoImplicit false

namespace ArtifactIndex

namespace Version

theorem ofJson?_toJson (v : Version) : ofJson? v.toJson = some v := by
  rw [ofJson?, toJson, Json.text?_ofString, Option.bind_some, parse_literal]
  rfl

theorem wellFormed_toJson (v : Version) : v.toJson.WellFormed :=
  Json.wellFormed_ofString v.literal

end Version

namespace Program

theorem ofJson?_toJson (p : Program) : ofJson? p.toJson = some p := by
  have hfields : p.toJson.fields? ["group", "artifact"] =
      some [some (.ofString p.group), some (.ofString p.artifact)] :=
    Json.fields?_ofMembers (by simp)
  rw [ofJson?, hfields]
  simp [Json.text?_ofString]

theorem wellFormed_toJson (p : Program) : p.toJson.WellFormed := by
  refine Json.wellFormed_ofMembers ?_
  simpa using ⟨Json.wellFormed_ofString p.group, Json.wellFormed_ofString p.artifact⟩

end Program

namespace Revision

theorem ofJson?_toJson (r : Revision) : ofJson? r.toJson = some r := by
  have hfields : r.toJson.fields? ["program", "version"] =
      some [some r.program.toJson, some r.version.toJson] :=
    Json.fields?_ofMembers (by simp)
  rw [ofJson?, hfields]
  simp [Program.ofJson?_toJson, Version.ofJson?_toJson]

theorem wellFormed_toJson (r : Revision) : r.toJson.WellFormed := by
  refine Json.wellFormed_ofMembers ?_
  simpa using ⟨r.program.wellFormed_toJson, r.version.wellFormed_toJson⟩

end Revision

namespace Archive

theorem ofJson?_toJson (a : Archive) : ofJson? a.toJson = some a := by
  have hfields : a.toJson.fields? ["revision", "extension", "classifier"] =
      some [some a.revision.toJson, some (.ofString a.extension), some (.ofString a.classifier)] :=
    Json.fields?_ofMembers (by simp)
  rw [ofJson?, hfields]
  simp [Revision.ofJson?_toJson, Json.orDefault, Json.text?_ofString]

theorem wellFormed_toJson (a : Archive) : a.toJson.WellFormed := by
  refine Json.wellFormed_ofMembers ?_
  simpa using ⟨a.revision.wellFormed_toJson, Json.wellFormed_ofString a.extension,
    Json.wellFormed_ofString a.classifier⟩

end Archive
end ArtifactIndex
