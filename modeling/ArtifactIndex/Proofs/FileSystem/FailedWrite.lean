import ArtifactIndex.Proofs.FileSystem.AtomicWrite

/-!
# What a failed write leaves behind

An atomic write that fails may have made directories on the way to its target, and nothing else
(`FileSystem.of_atomicWrite_error`). `ExtendsAt` says this of two file systems: every entry is the
same in both, but for directories at some places where nothing was. It composes, and it keeps every
file. The places are those that the directory in front of the last name leads through
(`FileSystem.parents`).
-/

set_option autoImplicit false
set_option relaxedAutoImplicit false

namespace ArtifactIndex.FileSystem

open Text (Bytes)

variable {fs fs' fs'' : FileSystem} {loc : Location} {places places' : List Location}
  {path : String}

/-! ### Directories that were added -/

/-- The same entries, and perhaps some more directories. -/
def Extends (fs fs' : FileSystem) : Prop :=
  ∀ loc, fs'.entryAt loc = fs.entryAt loc ∨
    fs.entryAt loc = none ∧ ∃ mode, fs'.entryAt loc = some (.directory mode)

theorem Extends.fileAt_eq (h : Extends fs fs') (loc : Location) :
    fs'.fileAt loc = fs.fileAt loc := by
  unfold fileAt
  rcases h loc with hsame | ⟨hnone, mode, hdirectory⟩
  · rw [hsame]
  · rw [hnone, hdirectory]

theorem Extends.keepsDirectories (h : Extends fs fs') : KeepsDirectories fs fs' := by
  intro loc mode hdir
  rcases h loc with hsame | ⟨hnone, -⟩
  · rw [hsame, hdir]
  · simp [hnone] at hdir

/-- The entry at the location is the same, or a directory was made where nothing was, at one of the
places. -/
def SameOrMade (fs : FileSystem) (places : List Location) (fs' : FileSystem) (loc : Location) :
    Prop :=
  fs'.entryAt loc = fs.entryAt loc ∨
    fs.entryAt loc = none ∧ fs'.entryAt loc = some (.directory directoryMode) ∧ loc ∈ places

/-- The same entries, and perhaps some more directories at the places. -/
def ExtendsAt (fs : FileSystem) (places : List Location) (fs' : FileSystem) : Prop :=
  ∀ loc, fs.SameOrMade places fs' loc

namespace ExtendsAt

theorem refl (fs : FileSystem) (places : List Location) : fs.ExtendsAt places fs :=
  fun _ ↦ .inl rfl

theorem trans (h : fs.ExtendsAt places fs') (h' : fs'.ExtendsAt places fs'') :
    fs.ExtendsAt places fs'' := by
  intro loc
  rcases h loc with hsame | ⟨hnone, hdirectory, hmem⟩
  · rw [SameOrMade, ← hsame]
    exact h' loc
  · rcases h' loc with hsame' | ⟨hnone', -⟩
    · exact .inr ⟨hnone, hsame'.trans hdirectory, hmem⟩
    · simp [hdirectory] at hnone'

theorem mono (h : fs.ExtendsAt places fs') (hplaces : places ⊆ places') :
    fs.ExtendsAt places' fs' :=
  fun loc ↦ (h loc).imp_right fun ⟨hnone, hdirectory, hmem⟩ ↦ ⟨hnone, hdirectory, hplaces hmem⟩

theorem toExtends (h : fs.ExtendsAt places fs') : Extends fs fs' :=
  fun loc ↦ (h loc).imp_right fun ⟨hnone, hdirectory, _⟩ ↦ ⟨hnone, directoryMode, hdirectory⟩

theorem put (h : fs.entryAt loc = none) :
    fs.ExtendsAt [loc] (fs.put loc (.directory directoryMode)) := by
  have hdirectory : ∀ mode, fs.entryAt loc ≠ some (.directory mode) := by
    simp [h]
  intro place
  by_cases hplace : place = loc
  · rw [hplace]
    exact .inr ⟨h, entryAt_put_self _ (ne_nil_of_not_directory hdirectory), by simp⟩
  · exact .inl (entryAt_put_of_ne _ hplace)

end ExtendsAt

/-! ### The way to a directory -/

/-- Directories are made at the places that the names lead through. -/
theorem extendsAt_makeDirectories (fs : FileSystem) (dir : Location) (names : List String) :
    fs.ExtendsAt (names.scanl next dir) (fs.makeDirectories dir names).2 := by
  induction names generalizing fs dir with
  | nil => exact .refl fs _
  | cons name names ih =>
    rw [makeDirectories, List.scanl_cons]
    split_ifs
    · exact .refl fs _
    · cases hentry : fs.entryAt (next dir name) with
      | none =>
        have hfirst : next dir name ∈ names.scanl next (next dir name) := by
          cases names <;> simp
        have hmade := (ExtendsAt.put hentry).mono (List.cons_subset.2 ⟨hfirst, List.nil_subset _⟩)
        exact (hmade.trans (ih _ _)).mono (List.subset_cons_self _ _)
      | some e =>
        cases e with
        | file f => exact .refl fs _
        | directory mode => exact (ih fs _).mono (List.subset_cons_self _ _)

theorem extendsAt_createDirectory (fs : FileSystem) (path : String) :
    fs.ExtendsAt ((Path.components path).scanl next []) (fs.createDirectory path).2 := by
  have hfront : (Path.components path).dropLast.scanl next [] ⊆
      (Path.components path).scanl next [] := by
    rw [List.dropLast_eq_take, ← List.take_scanl]
    exact List.take_subset _ _
  have hmade := (fs.extendsAt_makeDirectories [] (Path.components path).dropLast).mono hfront
  unfold createDirectory
  by_cases hempty : path = ""
  · rw [if_pos hempty]
    exact .refl fs _
  · rw [if_neg hempty]
    cases checkPath path with
    | error fault => exact .refl fs _
    | ok =>
      by_cases hdot : Path.endsInDot path
      · simp only [hdot, if_true]
        rcases hmake : fs.makeDirectories [] (Path.components path).dropLast with
          ⟨fault | dir, made⟩
        · rwa [hmake] at hmade
        · rw [hmake] at hmade
          simp only
          split <;> exact hmade
      · simp only [hdot, Bool.false_eq_true, if_false]
        exact fs.extendsAt_makeDirectories [] (Path.components path)

/-- The places of the directories that a path goes through, from the working directory on. -/
def parents (path : String) : List Location :=
  ((Path.directory? path).elim [] Path.components).scanl next []

theorem extendsAt_parents {directory : String} (h : Path.directory? path = some directory) :
    fs.ExtendsAt (parents path) (fs.createDirectory directory).2 := by
  rw [parents, h]
  exact fs.extendsAt_createDirectory directory

/-! ### Failures -/

variable {content : Bytes} {e : Error}

theorem of_replaceVia_error {dir : Location}
    (h : fs.replaceVia dir path content = (.error e, fs')) :
    e = .files ∧ fs.ExtendsAt places fs' := by
  unfold replaceVia at h
  simp only at h
  split at h
  case h_1 => simp at h
  case h_2 =>
    obtain ⟨rfl, rfl⟩ : Error.files = e ∧ _ = fs' := by simpa using h
    exact ⟨rfl, fun loc ↦ .inl (entryAt_erase_put _ (fs.entryAt_temporaryName dir) loc)⟩

/-- An atomic write fails because of the file system or of a path without a directory, and every
file is as it was before. -/
theorem of_atomicWrite_error (h : fs.atomicWrite path content = (.error e, fs')) :
    (e = .files ∨ e = .noParent path) ∧ fs.ExtendsAt (parents path) fs' := by
  unfold atomicWrite at h
  split at h
  case h_1 =>
    obtain ⟨rfl, rfl⟩ : Error.noParent path = e ∧ fs = fs' := by simpa using h
    exact ⟨.inr rfl, .refl fs _⟩
  case h_2 directory hdirectory =>
    have hcreated : fs.ExtendsAt (parents path) (fs.createDirectory directory).2 :=
      extendsAt_parents hdirectory
    split at h
    case h_1 fault made hmade =>
      obtain ⟨rfl, rfl⟩ : Error.files = e ∧ made = fs' := by simpa using h
      rw [hmade] at hcreated
      exact ⟨.inl rfl, hcreated⟩
    case h_2 dir made hmade =>
      rw [hmade] at hcreated
      by_cases hroom : made.hasRoom (if directory = "" then "." else directory)
      · rw [if_pos hroom] at h
        obtain ⟨herror, hextends⟩ := of_replaceVia_error h
        exact ⟨.inl herror, hcreated.trans hextends⟩
      · rw [if_neg hroom] at h
        obtain ⟨rfl, rfl⟩ : Error.files = e ∧ made = fs' := by simpa using h
        exact ⟨.inl rfl, hcreated⟩

end ArtifactIndex.FileSystem
