import ArtifactIndex.Dependency.Json
import ArtifactIndex.Proofs.Coordinate.Json
import ArtifactIndex.Proofs.Coordinate.Order
import ArtifactIndex.Proofs.Json.Compact

/-!
# Declarations read back from documents

A dependency keeps the version as it was declared, which may be any text; its scope is written as a
name and its optional fields are always written. So a dependency is given back by its document
(`Dependency.ofJson?_toJson`), and a build descriptor by the documents of its dependencies.

Main statement: whatever describes a build, from a version to a whole build descriptor, is read back
from the bytes of its compact form, and the versions that were read have the components they had
(`BuildDescriptor.compact_reads_back`).
-/

set_option autoImplicit false
set_option relaxedAutoImplicit false

namespace ArtifactIndex

/-! ### Documents -/

namespace Scope

theorem named?_text (s : Scope) : named? s.text = some s := by
  cases s <;> decide

theorem ofJson?_toJson (s : Scope) : ofJson? s.toJson = some s := by
  have hchoice : s.toJson.choice? = some s.text := Text.decode?_encode s.text
  rw [ofJson?, hchoice, Option.bind_some, named?_text]

theorem wellFormed_toJson (s : Scope) : s.toJson.WellFormed :=
  Json.wellFormed_ofString s.text

end Scope

namespace Dependency

theorem ofJson?_toJson (d : Dependency) : ofJson? d.toJson = some d := by
  have hfields : d.toJson.fields? ["program", "version", "scope", "optional"] =
      some [some d.program.toJson, some (.ofString d.version), some d.scope.toJson,
        some (.bool d.optional)] :=
    Json.fields?_ofMembers (by simp)
  rw [ofJson?, hfields]
  simp [Program.ofJson?_toJson, Json.text?_ofString, Json.orDefault, Scope.ofJson?_toJson,
    Json.bool?]

theorem wellFormed_toJson (d : Dependency) : d.toJson.WellFormed := by
  refine Json.wellFormed_ofMembers ?_
  simpa using ⟨d.program.wellFormed_toJson, Json.wellFormed_ofString d.version,
    d.scope.wellFormed_toJson, Json.WellFormed.bool d.optional⟩

end Dependency

namespace BuildDescriptor

theorem ofJson?_toJson (b : BuildDescriptor) : ofJson? b.toJson = some b := by
  have hfields : b.toJson.fields? ["dependencies"] =
      some [some (.array (b.dependencies.map Dependency.toJson))] :=
    Json.fields?_ofMembers (by simp)
  rw [ofJson?, hfields]
  simp [Json.list?_map Dependency.ofJson?_toJson]

theorem wellFormed_toJson (b : BuildDescriptor) : b.toJson.WellFormed := by
  refine Json.wellFormed_ofMembers ?_
  simpa using Json.wellFormed_map Dependency.wellFormed_toJson b.dependencies

end BuildDescriptor

/-! ### Bytes -/

/-- Every value is read back from the compact form of its document. -/
def Json.ReadsBack {α : Type} (toJson : α → Json) (ofJson? : Json → Option α) : Prop :=
  ∀ x, (ofBytes? (toJson x).compact).bind ofJson? = some x

theorem Json.readsBack {α : Type} {toJson : α → Json} {ofJson? : Json → Option α}
    (hwell : ∀ x, (toJson x).WellFormed) (hread : ∀ x, ofJson? (toJson x) = some x) :
    ReadsBack toJson ofJson? := by
  intro x
  rw [ofBytes?_compact (hwell x), Option.bind_some, hread]

/-- Versions, coordinates and declarations are read back from the compact forms of their documents.
A version that was read so has the components of the one that was written and stands to every
version as that one does; the lowest version, which was never read, has the components that it gets
by being read. -/
theorem BuildDescriptor.compact_reads_back :
    Json.ReadsBack Version.toJson Version.ofJson? ∧
      Json.ReadsBack Program.toJson Program.ofJson? ∧
      Json.ReadsBack Revision.toJson Revision.ofJson? ∧
      Json.ReadsBack Archive.toJson Archive.ofJson? ∧
      Json.ReadsBack Dependency.toJson Dependency.ofJson? ∧
      Json.ReadsBack BuildDescriptor.toJson BuildDescriptor.ofJson? ∧
      (∀ v : Version, ∃ w, (Json.ofBytes? v.toJson.compact).bind Version.ofJson? = some w ∧
        w.components = v.components ∧ ∀ u : Version, w.cmp u = v.cmp u ∧ u.cmp w = u.cmp v) ∧
      Version.zero.components = .done := by
  have hversion : Json.ReadsBack Version.toJson Version.ofJson? :=
    Json.readsBack Version.wellFormed_toJson Version.ofJson?_toJson
  refine ⟨hversion, Json.readsBack Program.wellFormed_toJson Program.ofJson?_toJson,
    Json.readsBack Revision.wellFormed_toJson Revision.ofJson?_toJson,
    Json.readsBack Archive.wellFormed_toJson Archive.ofJson?_toJson,
    Json.readsBack Dependency.wellFormed_toJson Dependency.ofJson?_toJson,
    Json.readsBack BuildDescriptor.wellFormed_toJson BuildDescriptor.ofJson?_toJson,
    fun v ↦ ⟨v, hversion v, rfl, fun u ↦ ⟨rfl, rfl⟩⟩, Version.components_zero⟩

end ArtifactIndex
