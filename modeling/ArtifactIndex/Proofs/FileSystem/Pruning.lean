import ArtifactIndex.Closure.Work
import ArtifactIndex.Proofs.FileSystem.AtomicWrite

/-!
# Outdated files

A path is outdated at a time if it names a file that was modified before. `FileSystem.Pruned` says
of two file systems that the second is the first without the outdated ones among the files that some
paths name: nothing is left where such a file stood, and every other place holds what it held, be it
a file, a directory or nothing. Removing one path prunes (`FileSystem.pruned_dropOlder`), and
prunings in a row are one pruning of all their paths (`FileSystem.Pruned.append`): the places of
directories stay, so that a path leads where it led before another one was removed, and what it
names is judged as before.
-/

set_option autoImplicit false
set_option relaxedAutoImplicit false

namespace ArtifactIndex.FileSystem

variable {fs fs' fs'' : FileSystem} {time : Timestamp} {path : String} {paths paths' : List String}
  {loc : Location} {f : File}

/-- The path names a file that was modified before the time; the file stands at the location. -/
def Outdated (fs : FileSystem) (time : Timestamp) (path : String) (loc : Location) : Prop :=
  ∃ f, fs.find path = .ok (loc, .file f) ∧ f.modified < time

/-- `fs'` is `fs` without the outdated files among those that the paths name. -/
structure Pruned (fs : FileSystem) (time : Timestamp) (paths : List String) (fs' : FileSystem) :
    Prop where
  removed : ∀ path ∈ paths, ∀ loc, fs.Outdated time path loc → fs'.entryAt loc = none
  kept : ∀ loc, (∀ path ∈ paths, ¬ fs.Outdated time path loc) → fs'.entryAt loc = fs.entryAt loc

/-! ### Removing one path -/

theorem dropOlder_eq_erase (hfind : fs.find path = .ok (loc, .file f)) (h : f.modified < time) :
    fs.dropOlder path time = fs.erase loc := by
  have hmodified : fs.modified? path = .ok (some f.modified) := by
    rw [modified?, hfind]
  have hremove : fs.remove path = (.ok true, fs.erase loc) := by
    rw [remove, hfind]
  simp only [dropOlder, hmodified, hremove, if_pos h]

/-- A directory has a modification time too, but is not removed. -/
theorem dropOlder_eq_self (h : ∀ loc, ¬ fs.Outdated time path loc) :
    fs.dropOlder path time = fs := by
  unfold dropOlder modified? remove
  rcases hfind : fs.find path with fault | ⟨loc, f | mode⟩
  · cases fault <;> rfl
  · have hrecent : ¬ f.modified < time := fun hlt ↦ h loc ⟨f, hfind, hlt⟩
    simp only [if_neg hrecent]
  · simp only [ite_self]

theorem pruned_dropOlder (fs : FileSystem) (time : Timestamp) (path : String) :
    fs.Pruned time [path] (fs.dropOlder path time) := by
  by_cases hout : ∃ loc, fs.Outdated time path loc
  · obtain ⟨loc, f, hfind, hlt⟩ := hout
    have hdirectory : ∀ mode, fs.entryAt loc ≠ some (.directory mode) := by
      simp [(of_find_file hfind).2.1]
    rw [dropOlder_eq_erase hfind hlt]
    constructor
    · rintro path' hpath loc' ⟨g, hg, -⟩
      obtain rfl := List.mem_singleton.1 hpath
      obtain ⟨rfl, -⟩ : loc = loc' ∧ f = g := by simpa [hfind] using hg
      exact entryAt_erase_self (ne_nil_of_not_directory hdirectory)
    · intro loc' hkept
      refine entryAt_erase_of_ne ?_
      rintro rfl
      exact hkept path (List.mem_singleton_self path) ⟨f, hfind, hlt⟩
  · rw [not_exists] at hout
    rw [dropOlder_eq_self hout]
    constructor
    · intro path' hpath loc h
      obtain rfl := List.mem_singleton.1 hpath
      exact absurd h (hout loc)
    · exact fun _ _ ↦ rfl

/-! ### Removing one path after another -/

namespace Pruned

theorem entryAt_eq_some_iff (h : fs.Pruned time paths fs') {e : Entry} :
    fs'.entryAt loc = some e ↔
      fs.entryAt loc = some e ∧ ∀ path ∈ paths, ¬ fs.Outdated time path loc := by
  by_cases hkept : ∀ path ∈ paths, ¬ fs.Outdated time path loc
  · rw [h.kept loc hkept]
    exact (and_iff_left hkept).symm
  · have hremoved : fs'.entryAt loc = none := by
      push Not at hkept
      obtain ⟨path, hpath, hout⟩ := hkept
      exact h.removed path hpath loc hout
    simp [hremoved, hkept]

theorem entryAt_eq_none (h : fs.Pruned time paths fs') (hnone : fs.entryAt loc = none) :
    fs'.entryAt loc = none := by
  by_contra hsome
  obtain ⟨e, he⟩ := Option.ne_none_iff_exists'.1 hsome
  simpa [hnone] using (h.entryAt_eq_some_iff.1 he).1

theorem keepsDirectories (h : fs.Pruned time paths fs') : KeepsDirectories fs fs' := by
  intro loc mode hdir
  refine h.entryAt_eq_some_iff.2 ⟨hdir, ?_⟩
  rintro path - ⟨f, hfind, -⟩
  simpa [hdir] using (of_find_file hfind).2.1

theorem locate_eq_ok_iff (h : fs.Pruned time paths fs') :
    fs'.locate path = .ok loc ↔ fs.locate path = .ok loc :=
  ⟨locate_of_keepsDirectories fun _ _ hdir ↦ (h.entryAt_eq_some_iff.1 hdir).1,
    locate_of_keepsDirectories h.keepsDirectories⟩

/-- What is left is judged as before. -/
theorem outdated_iff (h : fs.Pruned time paths fs') :
    fs'.Outdated time path loc ↔
      fs.Outdated time path loc ∧ ∀ path ∈ paths, ¬ fs.Outdated time path loc := by
  simp only [Outdated, find_eq_file_iff, h.locate_eq_ok_iff, h.entryAt_eq_some_iff]
  tauto

theorem append (h : fs.Pruned time paths fs') (h' : fs'.Pruned time paths' fs'') :
    fs.Pruned time (paths ++ paths') fs'' := by
  constructor
  · intro path hpath loc hout
    by_cases hfirst : ∃ earlier ∈ paths, fs.Outdated time earlier loc
    · obtain ⟨earlier, hearlier, hout⟩ := hfirst
      exact h'.entryAt_eq_none (h.removed earlier hearlier loc hout)
    · push Not at hfirst
      have hsecond : path ∈ paths' :=
        (List.mem_append.1 hpath).resolve_left fun hmem ↦ hfirst path hmem hout
      exact h'.removed path hsecond loc (h.outdated_iff.2 ⟨hout, hfirst⟩)
  · intro loc hkept
    have hfirst : ∀ path ∈ paths, ¬ fs.Outdated time path loc :=
      fun path hpath ↦ hkept path (List.mem_append_left _ hpath)
    have hsecond : ∀ path ∈ paths', ¬ fs'.Outdated time path loc :=
      fun path hpath hout ↦
        hkept path (List.mem_append_right _ hpath) (h.outdated_iff.1 hout).1
    rw [h'.kept loc hsecond, h.kept loc hfirst]

end Pruned
end ArtifactIndex.FileSystem
