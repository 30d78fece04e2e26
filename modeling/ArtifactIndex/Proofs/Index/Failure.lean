import ArtifactIndex.Index.Seeded
import ArtifactIndex.Proofs.Closure.Sparing
import ArtifactIndex.Proofs.FileSystem.FailedWrite
import ArtifactIndex.Resource.OfFile

/-!
# Indexes after a failure

What an operation on an index leaves behind when it ends with an error (`SeededIndex.of_fails`). The
name, the place, the coordinates and the counters of the last refresh stay, and so does every file
that the collaborators spare, the index file among them. The content stays too, with one exception:
it is replaced before it is written, so content that could not be written is in the index
nevertheless, and is not what the index file holds (`Index.replace_directory`).
-/

set_option autoImplicit false
set_option relaxedAutoImplicit false

namespace ArtifactIndex

variable {ρ : Type}

/-- Every file that the collaborators spare is the same in both worlds. -/
def Repository.KeepsSpared (repository : Repository ρ) (builder : Builder ρ) (w w' : World ρ) :
    Prop :=
  ∀ loc, repository.Spares builder loc → w'.files.fileAt loc = w.files.fileAt loc

/-- The resources that a resolution of the seeds finds, none if it fails. -/
def Resolver.found? (resolver : Resolver) (repository : Repository ρ) (builder : Builder ρ)
    (budget : ℕ) (seeds : List Revision) (w : World ρ) : Option (List Resource) :=
  (resolver.resolve repository builder budget seeds w).1.toOption.map Closure.resources

namespace Index

/-- What a failure leaves of an index, by the content that had been found for it before. Where there
was none the index is the same; else it has this content, and the error is that it could not be
written. -/
def LeftWith (x : Index) (e : Error) (x' : Index) (fs' : FileSystem) :
    Option (List Resource) → Prop
  | none => x' = x
  | some resources =>
    x' = { x with resources := arrange resources } ∧ ∃ fs, x'.save fs = (.error e, fs')

variable {x x' : Index} {fs fs' : FileSystem} {e : Error}

/-- Errors with other causes than writing leave the index as it was. -/
theorem LeftWith.eq_of_ne {found : Option (List Resource)} (h : x.LeftWith e x' fs' found)
    (hfiles : e ≠ .files) (hparent : e ≠ .noParent x.location) : x' = x := by
  cases found with
  | none => exact h
  | some resources =>
    obtain ⟨rfl, fs, hsave⟩ := h
    rcases (FileSystem.of_atomicWrite_error hsave).1 with rfl | rfl
    · exact absurd rfl hfiles
    · exact absurd rfl hparent

theorem of_replace_error {resources : List Resource}
    (h : x.replace resources fs = (.error e, x', fs')) :
    x.LeftWith e x' fs' (some resources) ∧ fs.Extends fs' := by
  unfold replace at h
  simp only at h
  rcases hsave : Index.save { x with resources := arrange resources } fs with ⟨result, files⟩
  rw [hsave] at h
  obtain ⟨rfl, rfl, rfl⟩ : result = .error e ∧ { x with resources := arrange resources } = x' ∧
      files = fs' := by simpa using h
  exact ⟨⟨rfl, fs, hsave⟩, (FileSystem.of_atomicWrite_error hsave).2.toExtends⟩

variable {repository : Repository ρ} {builder : Builder ρ} {w w' : World ρ}

/-- Either the resolution fails or what it found cannot be written. -/
theorem of_refresh_error {resolver resolver' : Resolver} {budget : ℕ} {seeds : List Revision}
    (h : x.refresh resolver repository builder budget seeds w = (.error e, x', resolver', w')) :
    x.LeftWith e x' w'.files (resolver.found? repository builder budget seeds w) ∧
      repository.KeepsSpared builder w w' := by
  have hspared {loc : Location} (hloc : repository.Spares builder loc) :=
    Resolver.spares_resolve hloc resolver budget seeds w
  unfold refresh at h
  unfold Resolver.found?
  rcases hresolve : resolver.resolve repository builder budget seeds w with
    ⟨fault | closure, after, resolved⟩
  all_goals
    rw [hresolve] at h hspared
    simp only at h hspared
  · obtain ⟨-, rfl, -, rfl⟩ : fault = e ∧ x = x' ∧ after = resolver' ∧ resolved = w' := by
      simpa using h
    exact ⟨rfl, fun loc hloc ↦ hspared hloc⟩
  · rcases hreplace : x.replace closure.resources resolved.files with ⟨result, y, files⟩
    rw [hreplace] at h
    cases result with
    | ok => simp [Except.map] at h
    | error fault =>
      obtain ⟨rfl, rfl, -, rfl⟩ : fault = e ∧ y = x' ∧ after = resolver' ∧
          ⟨files, resolved.state⟩ = w' := by simpa [Except.map] using h
      obtain ⟨hleft, hextends⟩ := of_replace_error hreplace
      exact ⟨hleft, fun loc hloc ↦ (hextends.fileAt_eq loc).trans (hspared hloc)⟩

end Index

namespace SeededIndex

/-- The resources found for the coordinates, none if they cannot be read or not be resolved. -/
def found? (i : SeededIndex) (repository : Repository ρ) (builder : Builder ρ) (budget : ℕ)
    (w : World ρ) : Option (List Resource) :=
  (seeds i.coordinates).toOption.bind fun revisions ↦
    i.resolver.found? repository builder budget revisions w

/-- The operations that can fail, by the index and the world that they start from, the new content
found on the way, the error, and the index and the world that they leave. -/
inductive Fails (repository : Repository ρ) (builder : Builder ρ) :
    SeededIndex → World ρ → Option (List Resource) → Error → SeededIndex → World ρ → Prop where
  | load {i : SeededIndex} {w : World ρ} {e : Error} (h : i.index.load w.files = .error e) :
    Fails repository builder i w none e i w
  | replace {i : SeededIndex} {w : World ρ} {e : Error} {x : Index} {files : FileSystem}
    {resources : List Resource} (h : i.index.replace resources w.files = (.error e, x, files)) :
    Fails repository builder i w (some resources) e { i with index := x } { w with files := files }
  | refreshWith {i : SeededIndex} {w w' : World ρ} {e : Error} {x : Index} {resolver : Resolver}
    {budget : ℕ} {seeds : List Revision}
    (h : i.index.refresh i.resolver repository builder budget seeds w =
      (.error e, x, resolver, w')) :
    Fails repository builder i w (i.resolver.found? repository builder budget seeds w) e
      { i with index := x, resolver := resolver } w'
  | refresh {i i' : SeededIndex} {w w' : World ρ} {e : Error} {budget : ℕ}
    (h : i.refresh repository builder budget w = (.error e, i', w')) :
    Fails repository builder i w (i.found? repository builder budget w) e i' w'

variable {repository : Repository ρ} {builder : Builder ρ} {i i' : SeededIndex} {w w' : World ρ}
  {e : Error}

/-- A refresh fails before it asks anybody, where coordinates cannot be read, or within the
index. -/
theorem of_refresh_error {budget : ℕ}
    (h : i.refresh repository builder budget w = (.error e, i', w')) :
    ∃ x resolver, i' = { i with index := x, resolver := resolver } ∧
      i.index.LeftWith e x w'.files (i.found? repository builder budget w) ∧
      repository.KeepsSpared builder w w' := by
  unfold SeededIndex.refresh at h
  unfold SeededIndex.found?
  by_cases hnone : i.coordinates = []
  · simp [hnone] at h
  · rw [if_neg hnone] at h
    cases hseeds : seeds i.coordinates with
    | error fault =>
      obtain ⟨-, rfl, rfl⟩ : fault = e ∧ i = i' ∧ w = w' := by simpa [hseeds] using h
      exact ⟨i.index, i.resolver, rfl, rfl, fun _ _ ↦ rfl⟩
    | ok revisions =>
      simp only [hseeds] at h
      rcases hrefresh : i.index.refresh i.resolver repository builder budget revisions w with
        ⟨fault | stats, x, resolver, after⟩
      all_goals
        rw [hrefresh] at h
        simp only at h
      · obtain ⟨rfl, rfl, rfl⟩ : fault = e ∧ { i with index := x, resolver := resolver } = i' ∧
            after = w' := by simpa using h
        exact ⟨x, resolver, rfl, Index.of_refresh_error hrefresh⟩
      · simp at h

variable {found : Option (List Resource)}

theorem Fails.exists_index (h : Fails repository builder i w found e i' w') :
    ∃ x resolver, i' = { i with index := x, resolver := resolver } ∧
      i.index.LeftWith e x w'.files found ∧ repository.KeepsSpared builder w w' := by
  cases h with
  | load _ => exact ⟨i.index, i.resolver, rfl, rfl, fun _ _ ↦ rfl⟩
  | replace h =>
    obtain ⟨hleft, hextends⟩ := Index.of_replace_error h
    exact ⟨_, i.resolver, rfl, hleft, fun loc _ ↦ hextends.fileAt_eq loc⟩
  | refreshWith h => exact ⟨_, _, rfl, Index.of_refresh_error h⟩
  | refresh h => exact of_refresh_error h

/-- After a failure all is as it was before, but for content that was found and could not be
written. -/
theorem of_fails (h : Fails repository builder i w found e i' w') :
    i'.coordinates = i.coordinates ∧ i'.lastStats = i.lastStats ∧
      i.index.LeftWith e i'.index w'.files found ∧
      (e ≠ .files → e ≠ .noParent i.index.location → i'.index = i.index) ∧
      repository.KeepsSpared builder w w' := by
  obtain ⟨x, resolver, rfl, hleft, hfiles⟩ := h.exists_index
  exact ⟨rfl, rfl, hleft, hleft.eq_of_ne, hfiles⟩

/-! ### Files that cannot be written -/

/-- A repository with an archive for every revision, which it keeps in one file. -/
def singleFile : Repository Unit where
  resolveArchive r := .done (.ok (some (.jar r)))
  snapshotSources := .done []
  metadataTimestamp _ _ := .done (.ok none)
  localFile _ := .done "archive.jar"
  fetch _ := .done (.ok "archive.jar")
  buildDescriptor _ := .done (.ok none)
  availableRevisions _ := .done (.ok [])

/-- Describes archives by their revisions alone. -/
def namesOnly : Builder Unit :=
  fun _ a ↦ .done (.ok ⟨[Resource.information a], []⟩)

theorem singleFile_spares {name : String} (h : name ≠ "archive.jar") :
    singleFile.Spares namesOnly [name] where
  resolveArchive _ := .done _
  snapshotSources := .done _
  metadataTimestamp _ _ := .done _
  localFile _ := .done _
  elsewhere := by
    rintro a w path hpath fs hlocate
    obtain rfl : "archive.jar" = path := by simpa [singleFile, Call.done] using hpath
    have hplace : fs.locate "archive.jar" = .ok ["archive.jar"] := rfl
    rw [hplace] at hlocate
    exact h (by simpa using hlocate.symm)
  fetch _ := .done _
  buildDescriptor _ := .done _
  availableRevisions _ := .done _
  builder _ _ := .done _

/-- In a directory with a path of 4090 bytes there is room for the name of the index file, but not
for that of the temporary file. The refresh finds a resource for the coordinates and fails; the
index file and the counters stay. -/
theorem of_fails_longPath :
    let fs : FileSystem :=
      ⟨[(["index.json"], .file ⟨[0x7B, 0x7D], 0, 0o644#9⟩)], ⟨["work"], 4090, 0o755#9⟩, 0⟩
    let i : SeededIndex := ⟨.new "mvnidx" "index.json", .new 4, ["g:a:1"], some .zero⟩
    ∃ resources i' w', Fails singleFile namesOnly i ⟨fs, ()⟩ (some resources) .files i' w' ∧
      i'.index.resources = Index.arrange resources ∧ i'.lastStats = some .zero ∧
      w'.files.fileAt ["index.json"] = some ⟨[0x7B, 0x7D], 0, 0o644#9⟩ := by
  intro fs i
  have hended : (i.refresh singleFile namesOnly 2 ⟨fs, ()⟩).1 = .error .files := by decide +kernel
  have hfound : (i.found? singleFile namesOnly 2 ⟨fs, ()⟩).isSome := by decide +kernel
  obtain ⟨resources, hresources⟩ := Option.isSome_iff_exists.1 hfound
  rcases hrefresh : i.refresh singleFile namesOnly 2 ⟨fs, ()⟩ with ⟨result, i', w'⟩
  rw [hrefresh] at hended
  obtain rfl : result = .error .files := hended
  have hfails : Fails singleFile namesOnly i ⟨fs, ()⟩ (some resources) .files i' w' :=
    hresources ▸ .refresh hrefresh
  obtain ⟨-, hstats, ⟨hindex, -⟩, -, hfiles⟩ := of_fails hfails
  have hbefore : fs.fileAt ["index.json"] = some ⟨[0x7B, 0x7D], 0, 0o644#9⟩ := rfl
  have hafter := hfiles ["index.json"] (singleFile_spares (by decide))
  exact ⟨resources, i', w', hfails, congrArg Index.resources hindex, hstats, hafter.trans hbefore⟩

end SeededIndex

/-- Where the index file should go there is a directory. The content has been replaced although
nothing was written. -/
theorem Index.replace_directory :
    let fs : FileSystem := ⟨[(["d"], .directory 0o755#9)], ⟨["work"], 5, 0o755#9⟩, 0⟩
    let x : Index := .new "t" "d"
    let found : Resource := ⟨[.ofAttributes "bnd.info" [("from", .string "g:a:1")]], []⟩
    (x.replace [found] fs).1 = .error .files ∧ (x.replace [found] fs).2.1.resources = [found] ∧
      x.resources = [] := by
  decide +kernel

end ArtifactIndex
