import ArtifactIndex.Proofs.FileSystem.FailedWrite

/-!
# A write that takes place as a whole or not at all

An atomic write has two endings (`FileSystem.atomicWrite_all_or_nothing`). When it succeeds, the
path names a file with the new content at one location, and every file elsewhere is the one that was
there before. When it fails, this holds of every file. In both endings nothing is added but the
parents that were missing, so the temporary file is gone.

The directories on the way are made before the old mode is read and the temporary file is written.
They are no files and take no place where something was (`ExtendsAt`), so what is true of the file
system with its new directories is true of the one before.
-/

set_option autoImplicit false
set_option relaxedAutoImplicit false

namespace ArtifactIndex.FileSystem

open Text (Bytes)

variable {fs fs' : FileSystem} {path : String} {content : Bytes}

/-- A write of the content to the path that has taken place, with the file `f` at `loc`. The file
has the mode of the file that was there before, if there was one. -/
structure Written (fs : FileSystem) (path : String) (content : Bytes) (loc : Location) (f : File)
    (fs' : FileSystem) : Prop where
  find_eq : fs'.find path = .ok (loc, .file f)
  content_eq : f.content = content
  mode_eq : f.mode = ((fs.fileAt loc).map File.mode).getD privateMode
  replaces : ∀ former g, fs.find path = .ok (former, .file g) → former = loc ∧ f.mode = g.mode
  fileAt_eq : ∀ loc' ≠ loc, fs'.fileAt loc' = fs.fileAt loc'
  sameOrMade : ∀ loc' ≠ loc, fs.SameOrMade (parents path) fs' loc'

/-- A write that has not taken place. -/
structure Refused (fs : FileSystem) (path : String) (fs' : FileSystem) : Prop where
  fileAt_eq : ∀ loc, fs'.fileAt loc = fs.fileAt loc
  sameOrMade : ∀ loc, fs.SameOrMade (parents path) fs' loc

theorem exists_written (h : fs.atomicWrite path content = (.ok (), fs')) :
    ∃ loc f, fs.Written path content loc f fs' := by
  obtain ⟨directory, dir, made, hdirectory, hmade, hreplace⟩ := of_atomicWrite h
  have hcreated : fs.ExtendsAt (parents path) (fs.createDirectory directory).2 :=
    extendsAt_parents hdirectory
  rw [hmade] at hcreated
  have hextends : Extends fs made := hcreated.toExtends
  obtain ⟨loc, hlocate, hfind, hothers⟩ := of_replaceVia hreplace
  have hmode := hextends.fileAt_eq loc
  have hreplaced (former : Location) (g : File) (hg : fs.find path = .ok (former, .file g)) :
      former = loc ∧ fs.fileAt loc = some g := by
    obtain ⟨hformer, hentry, -⟩ := of_find_file hg
    have hkept : made.locate path = .ok former :=
      locate_of_keepsDirectories hextends.keepsDirectories hformer
    obtain rfl : former = loc := by simpa [hlocate] using hkept.symm
    exact ⟨rfl, by rw [fileAt, hentry]⟩
  refine ⟨loc, _, hfind, rfl, by rw [hmode], ?_, ?_, ?_⟩
  · intro former g hg
    obtain ⟨hplace, hfile⟩ := hreplaced former g hg
    exact ⟨hplace, by simp [hmode, hfile]⟩
  · intro loc' hplace
    rw [← hextends.fileAt_eq, fileAt, hothers loc' hplace, fileAt]
  · intro loc' hplace
    rw [SameOrMade, hothers loc' hplace]
    exact hcreated loc'

/-- An atomic write takes place as a whole or leaves every file as it was. -/
theorem atomicWrite_all_or_nothing (fs : FileSystem) (path : String) (content : Bytes) :
    (∀ fs', fs.atomicWrite path content = (.ok (), fs') →
      ∃ loc f, fs.Written path content loc f fs') ∧
    (∀ e fs', fs.atomicWrite path content = (.error e, fs') → fs.Refused path fs') := by
  refine ⟨fun fs' ↦ exists_written, fun e fs' h ↦ ?_⟩
  obtain ⟨-, hextends⟩ := of_atomicWrite_error h
  exact ⟨hextends.toExtends.fileAt_eq, hextends⟩

/-- A file that is replaced, one that needs a directory, and one for which a file is in the way. -/
theorem atomicWrite_all_or_nothing_three :
    let fs : FileSystem := ⟨[(["a"], .file ⟨[1], 0, 0o640#9⟩)], ⟨["work"], 5, 0o755#9⟩, 7⟩
    (∃ fs', fs.atomicWrite "./a" [2] = (.ok (), fs') ∧
      fs.Written "./a" [2] ["a"] ⟨[2], 7, 0o640#9⟩ fs') ∧
    (∃ fs', fs.atomicWrite "b/c" [2] = (.ok (), fs') ∧
      fs.Written "b/c" [2] ["b", "c"] ⟨[2], 7, 0o600#9⟩ fs') ∧
    ∃ fs', fs.atomicWrite "a/c" [2] = (.error .files, fs') ∧ fs.Refused "a/c" fs' := by
  intro fs
  have hwritten {path : String} {loc : Location} {f : File}
      (hok : (fs.atomicWrite path [2]).1 = .ok ())
      (hfind : (fs.atomicWrite path [2]).2.find path = .ok (loc, .file f)) :
      ∃ fs', fs.atomicWrite path [2] = (.ok (), fs') ∧ fs.Written path [2] loc f fs' := by
    have h : fs.atomicWrite path [2] = (.ok (), (fs.atomicWrite path [2]).2) := Prod.ext hok rfl
    obtain ⟨place, g, hwritten⟩ := (atomicWrite_all_or_nothing fs path [2]).1 _ h
    obtain ⟨rfl, rfl⟩ : loc = place ∧ f = g := by
      simpa [hfind] using hwritten.find_eq
    exact ⟨_, h, hwritten⟩
  have hrefused : fs.atomicWrite "a/c" [2] = (.error .files, (fs.atomicWrite "a/c" [2]).2) :=
    Prod.ext (by decide +kernel) rfl
  exact ⟨hwritten (by decide +kernel) (by decide +kernel),
    hwritten (by decide +kernel) (by decide +kernel),
    _, hrefused, (atomicWrite_all_or_nothing fs "a/c" [2]).2 _ _ hrefused⟩

end ArtifactIndex.FileSystem
