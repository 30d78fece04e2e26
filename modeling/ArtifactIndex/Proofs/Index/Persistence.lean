import ArtifactIndex.Index.Seeded
import ArtifactIndex.Proofs.Closure.Recording
import ArtifactIndex.Proofs.FileSystem.AtomicWrite
import ArtifactIndex.Proofs.Json.Reading
import ArtifactIndex.Proofs.Resource.Json

/-!
# A saved index reads back

Saving an index and loading it from where it was saved are inverse: what was written is what is read
(`IndexFile.load_of_save`), for every name and all resources, whatever texts they hold. An index
opened on such a file takes the resources from it and asks nobody (`SeededIndex.openWith_of_load`).
-/

set_option autoImplicit false
set_option relaxedAutoImplicit false

namespace ArtifactIndex

namespace IndexFile

theorem ofJson?_toJson (f : IndexFile) : ofJson? f.toJson = some f := by
  have hfields : f.toJson.fields? ["name", "resources"] =
      some [some (.ofString f.name), some (.array (f.resources.map Resource.toJson))] :=
    Json.fields?_ofMembers (by simp)
  rw [ofJson?, hfields]
  simp [Json.orDefault, Json.text?_ofString, Json.list?_map Resource.ofJson?_toJson]

theorem wellFormed_toJson (f : IndexFile) : f.toJson.WellFormed := by
  refine Json.wellFormed_ofMembers ?_
  simpa using ⟨Json.wellFormed_ofString f.name,
    Json.wellFormed_map Resource.wellFormed_toJson f.resources⟩

theorem load_of_save {fs fs' : FileSystem} {path : String} {f : IndexFile}
    (h : save fs path f = (.ok (), fs')) : load fs' path = .ok f :=
  FileSystem.readDocument_of_writeDocument (Json.ofBytes?_pretty f.wellFormed_toJson)
    f.ofJson?_toJson h

end IndexFile

variable {ρ : Type}

theorem FileSystem.isFile_of_readDocument {α : Type} {value? : Json → Option α} {fs : FileSystem}
    {path : String} {value : α} (h : fs.readDocument value? path = .ok value) : fs.isFile path := by
  unfold readDocument at h
  unfold isFile
  split at h
  · simp at h
  · simp at h
  case h_3 hfind => simp [hfind]

namespace SeededIndex

/-- The index as it is when it has just been read from its file. -/
def loaded (index : Index) (settings : Settings) (resources : List Resource) : SeededIndex :=
  ⟨{ index with resources := resources }, .new settings.maxParallel, settings.coordinates, none⟩

/-- Where the index file can be read nothing is resolved. -/
theorem openWith_of_load (index : Index) (settings : Settings) (repository : Repository ρ)
    (builder : Builder ρ) (budget : ℕ) (w : World ρ) {f : IndexFile}
    (h : IndexFile.load w.files index.location = .ok f) :
    openWith index settings repository builder budget w =
      (.ok (loaded index settings f.resources), w) := by
  have hpersisted : index.isPersisted w.files := FileSystem.isFile_of_readDocument h
  have hload : index.load w.files = .ok (true, { index with resources := f.resources }) := by
    rw [Index.load, if_pos hpersisted, h]
    rfl
  rw [openWith, hload]
  rfl

/-- An index that was saved is read back as it was, and opened at that place it has exactly those
resources and no counters; the collaborators, whatever they would do, are not asked. -/
theorem open_saved {fs fs' : FileSystem} {path name : String} {resources : List Resource}
    (hsave : IndexFile.save fs path ⟨name, resources⟩ = (.ok (), fs')) :
    IndexFile.load fs' path = .ok ⟨name, resources⟩ ∧
      ∀ (ρ : Type) (state : ρ) (repository : Repository ρ) (builder : Builder ρ) (budget : ℕ)
        (settings : Settings),
        (settings.indexLocation = path →
          openAt settings repository builder budget ⟨fs', state⟩ =
            (.ok (loaded (.new settings.name path) settings resources), ⟨fs', state⟩)) ∧
        ∀ index : Index, index.location = path →
          openWith index settings repository builder budget ⟨fs', state⟩ =
            (.ok (loaded index settings resources), ⟨fs', state⟩) ∧
          (openWith index settings repository.recorded builder.recorded budget
            ⟨fs', ⟨state, []⟩⟩).2.state.log = [] := by
  have hload : IndexFile.load fs' path = .ok ⟨name, resources⟩ := IndexFile.load_of_save hsave
  refine ⟨hload, fun ρ state repository builder budget settings ↦ ⟨?_, ?_⟩⟩
  · rintro rfl
    rw [openAt, openWith_of_load (.new _ _) settings repository builder budget ⟨fs', state⟩ hload]
  · rintro index rfl
    rw [openWith_of_load index settings repository builder budget ⟨fs', state⟩ hload,
      openWith_of_load index settings repository.recorded builder.recorded budget
        ⟨fs', ⟨state, []⟩⟩ hload]
    exact ⟨rfl, rfl⟩

/-- A resource whose text has to be escaped, and an empty working directory to save it in. -/
theorem open_saved_escaped :
    let fs : FileSystem := ⟨[], ⟨["work"], 5, 0o755#9⟩, 0⟩
    let resources : List Resource :=
      [⟨[.ofAttributes "bnd.info" [("from", .string "\"g:a\\\n1\""), ("size", .long (-1))]], []⟩]
    ∃ fs', IndexFile.save fs "index.json" ⟨"mvnidx", resources⟩ = (.ok (), fs') ∧
      IndexFile.load fs' "index.json" = .ok ⟨"mvnidx", resources⟩ := by
  intro fs resources
  have hsaved : (IndexFile.save fs "index.json" ⟨"mvnidx", resources⟩).1 = .ok () := by
    decide +kernel
  have hsave : IndexFile.save fs "index.json" ⟨"mvnidx", resources⟩ =
      (.ok (), (IndexFile.save fs "index.json" ⟨"mvnidx", resources⟩).2) := Prod.ext hsaved rfl
  exact ⟨_, hsave, (open_saved hsave).1⟩

end SeededIndex
end ArtifactIndex
