import Mathlib.Data.List.Basic
import ArtifactIndex.FileSystem.Document

/-!
# A file that has been replaced

Replacing a file through a temporary one changes a single place, the one to which the path led
before (`FileSystem.of_replaceVia`). The temporary file goes away, the target is put in its place
and its mode may be set, but none of this changes a directory, and a walk looks at directories only
(`FileSystem.walk_of_keepsDirectories`). So the path leads where it led when the temporary file was
renamed, and after an atomic write that succeeded it names a regular file with the new content
(`FileSystem.holds_of_atomicWrite`).

The temporary file could do harm only if its name were in use. Its name is longer than all others
(`FileSystem.entryAt_temporaryName`).
-/

set_option autoImplicit false
set_option relaxedAutoImplicit false

namespace ArtifactIndex.FileSystem

open Text (Bytes)

variable {fs fs' : FileSystem} {loc loc' : Location}

/-! ### Entries -/

theorem lookup_filter_ne {entries : List (Location × Entry)} (h : loc' ≠ loc) :
    (entries.filter (·.1 ≠ loc)).lookup loc' = entries.lookup loc' := by
  induction entries with
  | nil => rfl
  | cons e entries ih =>
    obtain ⟨place, entry⟩ := e
    by_cases hplace : place = loc
    · have hne : (loc' == place) = false := by simpa [hplace] using h
      rw [List.filter_cons_of_neg (by simpa using hplace), ih, List.lookup_cons, hne]
    · rw [List.filter_cons_of_pos (by simpa using hplace), List.lookup_cons, List.lookup_cons, ih]

theorem entryAt_erase_of_ne (h : loc' ≠ loc) : (fs.erase loc).entryAt loc' = fs.entryAt loc' := by
  unfold entryAt erase
  rw [lookup_filter_ne h]

theorem entryAt_erase_self (h : loc ≠ []) : (fs.erase loc).entryAt loc = none := by
  have hlookup : (fs.entries.filter (·.1 ≠ loc)).lookup loc = none := by
    rw [List.lookup_eq_none_iff]
    intro e he
    have hne : e.1 ≠ loc := by simpa using List.of_mem_filter he
    simpa using Ne.symm hne
  rw [entryAt, if_neg h]
  exact hlookup

theorem entryAt_put_of_ne (e : Entry) (h : loc' ≠ loc) :
    (fs.put loc e).entryAt loc' = fs.entryAt loc' := by
  have hne : (loc' == loc) = false := by simpa using h
  simp only [entryAt, put, List.lookup_cons, hne, lookup_filter_ne h]

theorem entryAt_put_self (e : Entry) (h : loc ≠ []) : (fs.put loc e).entryAt loc = some e := by
  simp [entryAt, put, h]

theorem ne_nil_of_not_directory (h : ∀ mode, fs.entryAt loc ≠ some (.directory mode)) :
    loc ≠ [] := by
  rintro rfl
  exact h fs.working.mode (by simp [entryAt])

/-! ### Walks -/

/-- Whatever was a directory is one. -/
def KeepsDirectories (fs fs' : FileSystem) : Prop :=
  ∀ loc mode, fs.entryAt loc = some (.directory mode) → fs'.entryAt loc = some (.directory mode)

theorem keepsDirectories_erase {f : File} (h : fs.fileAt loc = some f) :
    KeepsDirectories fs (fs.erase loc) := by
  intro dir mode hdir
  have hne : dir ≠ loc := by
    rintro rfl
    simp [fileAt, hdir] at h
  rw [entryAt_erase_of_ne hne, hdir]

/-- Nothing becomes a directory where an entry is taken away. -/
theorem ne_directory_erase (h : ∀ mode, fs.entryAt loc' ≠ some (.directory mode)) (mode : Mode) :
    (fs.erase loc).entryAt loc' ≠ some (.directory mode) := by
  by_cases hplace : loc' = loc
  · rw [hplace, entryAt_erase_self (hplace ▸ ne_nil_of_not_directory h)]
    simp
  · rw [entryAt_erase_of_ne hplace]
    exact h mode

theorem keepsDirectories_put (e : Entry) (h : ∀ mode, fs.entryAt loc ≠ some (.directory mode)) :
    KeepsDirectories fs (fs.put loc e) := by
  intro dir mode hdir
  have hne : dir ≠ loc := by
    rintro rfl
    exact h mode hdir
  rw [entryAt_put_of_ne e hne, hdir]

theorem walk_of_keepsDirectories (h : KeepsDirectories fs fs') {dir : Location}
    {names : List String} (hwalk : fs.walk dir names = .ok loc) : fs'.walk dir names = .ok loc := by
  induction names generalizing dir with
  | nil => exact hwalk
  | cons name names ih =>
    rw [walk] at hwalk ⊢
    split_ifs at hwalk ⊢
    · exact hwalk
    · cases hentry : fs.entryAt (next dir name) with
      | none => simp [hentry] at hwalk
      | some e =>
        cases e with
        | file f => simp [hentry] at hwalk
        | directory mode =>
          rw [h _ _ hentry]
          exact ih (by simpa [hentry] using hwalk)

theorem locate_of_keepsDirectories (h : KeepsDirectories fs fs') {path : String}
    (hlocate : fs.locate path = .ok loc) : fs'.locate path = .ok loc := by
  unfold locate at hlocate ⊢
  cases hcheck : checkPath path with
  | error fault => simp [hcheck] at hlocate
  | ok =>
    rw [hcheck] at hlocate
    exact walk_of_keepsDirectories h hlocate

/-! ### What a path names -/

variable {path : String}

theorem of_find_file {f : File} (h : fs.find path = .ok (loc, .file f)) :
    fs.locate path = .ok loc ∧ fs.entryAt loc = some (.file f) ∧ ¬ Path.endsInSeparator path := by
  unfold find at h
  cases hlocate : fs.locate path with
  | error fault => simp [hlocate] at h
  | ok place =>
    cases hentry : fs.entryAt place with
    | none => simp [hlocate, hentry] at h
    | some e =>
      cases e with
      | directory mode => simp [hlocate, hentry] at h
      | file g =>
        by_cases hseparator : Path.endsInSeparator path
        · simp [hlocate, hentry, hseparator] at h
        · simp only [hlocate, hentry, hseparator] at h
          obtain ⟨rfl, rfl⟩ : place = loc ∧ g = f := by simpa using h
          exact ⟨rfl, hentry, hseparator⟩

theorem find_eq_file_iff {f : File} :
    fs.find path = .ok (loc, .file f) ↔
      fs.locate path = .ok loc ∧ fs.entryAt loc = some (.file f) ∧
        ¬ Path.endsInSeparator path := by
  constructor
  · exact of_find_file
  · rintro ⟨hlocate, hentry, hseparator⟩
    rw [find, hlocate]
    simp only [hentry]
    rw [if_neg hseparator]

/-- A file put where the path leads is what the path names. -/
theorem find_put (hlocate : fs.locate path = .ok loc)
    (hentry : ∀ mode, fs.entryAt loc ≠ some (.directory mode))
    (hseparator : ¬ Path.endsInSeparator path) (f : File) :
    (fs.put loc (.file f)).find path = .ok (loc, .file f) :=
  find_eq_file_iff.2 ⟨locate_of_keepsDirectories (keepsDirectories_put _ hentry) hlocate,
    entryAt_put_self _ (ne_nil_of_not_directory hentry), hseparator⟩

/-- The mode that a path answers is that of the file it leads to. -/
theorem toOption_mode (hlocate : fs.locate path = .ok loc)
    (hentry : ∀ mode, fs.entryAt loc ≠ some (.directory mode))
    (hseparator : ¬ Path.endsInSeparator path) :
    (fs.mode path).toOption = (fs.fileAt loc).map File.mode := by
  unfold mode find fileAt
  rw [hlocate]
  rcases h : fs.entryAt loc with _ | f | mode
  · simp [h, Except.toOption]
  · simp [h, hseparator, Except.toOption]
  · exact absurd h (hentry mode)

/-! ### The temporary file -/

theorem le_foldl_max {α : Type} (size : α → ℕ) (items : List α) (start : ℕ) :
    start ≤ items.foldl (fun n a ↦ max n (size a)) start ∧
      ∀ a ∈ items, size a ≤ items.foldl (fun n a ↦ max n (size a)) start := by
  induction items generalizing start with
  | nil => simp
  | cons item items ih =>
    obtain ⟨hstart, hitems⟩ := ih (max start (size item))
    rw [List.foldl_cons]
    exact ⟨Nat.le_trans (Nat.le_max_left _ _) hstart,
      List.forall_mem_cons.2 ⟨Nat.le_trans (Nat.le_max_right _ _) hstart, hitems⟩⟩

/-- The name of the temporary file is not in use. -/
theorem entryAt_temporaryName (fs : FileSystem) (dir : Location) :
    fs.entryAt (dir ++ [fs.temporaryName]) = none := by
  have hlength : fs.temporaryName.length = fs.longestName + 1 := by
    rw [temporaryName, String.length_ofList, List.length_cons, List.length_replicate]
  rw [entryAt, if_neg (by simp), List.lookup_eq_none_iff]
  intro e he
  have hsize := (le_foldl_max (fun e : Location × Entry ↦ (e.1.getLast?.map String.length).getD 0)
    fs.entries 0).2 e he
  have hbound : (e.1.getLast?.map String.length).getD 0 ≤ fs.longestName := hsize
  have hne : dir ++ [fs.temporaryName] ≠ e.1 := by
    intro heq
    rw [← heq, List.getLast?_concat, Option.map_some, Option.getD_some, hlength] at hbound
    omega
  simpa using hne

/-- A file that is put where nothing was and taken away again leaves no trace. -/
theorem entryAt_erase_put (e : Entry) (h : fs.entryAt loc = none) (loc' : Location) :
    ((fs.put loc e).erase loc).entryAt loc' = fs.entryAt loc' := by
  have hdirectory : ∀ mode, fs.entryAt loc ≠ some (.directory mode) := by
    simp [h]
  by_cases hplace : loc' = loc
  · rw [hplace, entryAt_erase_self (ne_nil_of_not_directory hdirectory), h]
  · rw [entryAt_erase_of_ne hplace, entryAt_put_of_ne e hplace]

/-- Putting a file somewhere makes no directory. -/
theorem keepsDirectories_of_put_file (f : File) (h : loc ≠ []) :
    KeepsDirectories (fs.put loc (.file f)) fs := by
  intro dir mode hdir
  have hne : dir ≠ loc := by
    rintro rfl
    simp [entryAt_put_self _ h] at hdir
  rwa [entryAt_put_of_ne _ hne] at hdir

/-! ### Replacing a file -/

/-- A file is renamed to where the path leads if no directory is there. -/
theorem of_rename {source : Location} {f : File} (hsource : fs.fileAt source = some f)
    (h : fs.rename source path = (.ok (), fs')) :
    ∃ loc, fs.locate path = .ok loc ∧ (∀ mode, fs.entryAt loc ≠ some (.directory mode)) ∧
      ¬ Path.endsInSeparator path ∧ fs' = (fs.erase source).put loc (.file f) := by
  unfold rename at h
  rw [hsource] at h
  cases hlocate : fs.locate path with
  | error fault => simp [hlocate] at h
  | ok loc =>
    simp only [hlocate] at h
    split at h
    case h_1 => simp at h
    case h_2 hentry =>
      by_cases hseparator : Path.endsInSeparator path
      · simp [hseparator] at h
      · rw [if_neg hseparator] at h
        exact ⟨loc, rfl, hentry, hseparator, (Prod.mk.inj h).2.symm⟩

theorem find_restoreMode {f : File} (h : fs.find path = .ok (loc, .file f))
    (former : Except Fault Mode) :
    (fs.restoreMode path former).find path =
      .ok (loc, .file { f with mode := former.toOption.getD f.mode }) := by
  obtain ⟨hlocate, hentry, hseparator⟩ := of_find_file h
  cases former with
  | error fault => exact h
  | ok mode =>
    simp only [restoreMode, setMode, h]
    exact find_put hlocate (by simp [hentry]) hseparator _

theorem entryAt_restoreMode_of_ne {f : File} (h : fs.find path = .ok (loc, .file f))
    (former : Except Fault Mode) (hplace : loc' ≠ loc) :
    (fs.restoreMode path former).entryAt loc' = fs.entryAt loc' := by
  cases former with
  | error fault => rfl
  | ok mode =>
    simp only [restoreMode, setMode, h]
    exact entryAt_put_of_ne _ hplace

variable {content : Bytes}

/-- A replaced file stands where the path led before, with the mode of the file that was there. All
other places are as they were, so the temporary file is gone. -/
theorem of_replaceVia {dir : Location} (h : fs.replaceVia dir path content = (.ok (), fs')) :
    ∃ loc, fs.locate path = .ok loc ∧
      fs'.find path = .ok (loc, .file ⟨content, fs.now,
        ((fs.fileAt loc).map File.mode).getD privateMode⟩) ∧
      ∀ loc' ≠ loc, fs'.entryAt loc' = fs.entryAt loc' := by
  let file : File := ⟨content, fs.now, privateMode⟩
  let temporary := dir ++ [fs.temporaryName]
  let written := fs.put temporary (.file file)
  have hfree : fs.entryAt temporary = none := fs.entryAt_temporaryName dir
  have htemporary : temporary ≠ [] := by simp [temporary]
  have hsource : written.fileAt temporary = some file := by
    rw [fileAt, entryAt_put_self _ htemporary]
  unfold replaceVia at h
  simp only at h
  split at h
  case h_1 renamed hrename =>
    obtain rfl := (Prod.mk.inj h).2
    obtain ⟨loc, hlocate, hentry, hseparator, rfl⟩ := of_rename hsource hrename
    have hformer : ∀ mode, fs.entryAt loc ≠ some (.directory mode) :=
      fun mode hdir ↦ hentry mode (keepsDirectories_put _ (by simp [hfree]) _ _ hdir)
    have hbefore : fs.locate path = .ok loc :=
      locate_of_keepsDirectories (keepsDirectories_of_put_file file htemporary) hlocate
    have herased : (written.erase temporary).locate path = .ok loc :=
      locate_of_keepsDirectories (keepsDirectories_erase hsource) hlocate
    have hfind := find_put herased (ne_directory_erase hentry) hseparator file
    refine ⟨loc, hbefore, ?_, ?_⟩
    · rw [find_restoreMode hfind, toOption_mode hbefore hformer hseparator]
    · intro loc' hplace
      rw [entryAt_restoreMode_of_ne hfind _ hplace, entryAt_put_of_ne _ hplace,
        entryAt_erase_put _ hfree]
  case h_2 => simp at h

/-- An atomic write that succeeds makes the directory of the path and replaces the file in it. -/
theorem of_atomicWrite (h : fs.atomicWrite path content = (.ok (), fs')) :
    ∃ directory dir made, Path.directory? path = some directory ∧
      fs.createDirectory directory = (.ok dir, made) ∧
      made.replaceVia dir path content = (.ok (), fs') := by
  unfold atomicWrite at h
  split at h
  case h_1 => simp at h
  case h_2 directory hdirectory =>
    split at h
    case h_1 => simp at h
    case h_2 dir made hmade =>
      by_cases hroom : made.hasRoom (if directory = "" then "." else directory)
      · rw [if_pos hroom] at h
        exact ⟨directory, dir, made, hdirectory, hmade, h⟩
      · simp [hroom] at h

/-- The path names a regular file with this content. -/
def Holds (fs : FileSystem) (path : String) (content : Bytes) : Prop :=
  ∃ loc f, fs.find path = .ok (loc, .file f) ∧ f.content = content

/-- After an atomic write that succeeded the path names a file with the content. -/
theorem holds_of_atomicWrite (h : fs.atomicWrite path content = (.ok (), fs')) :
    fs'.Holds path content := by
  obtain ⟨-, dir, made, -, -, hreplace⟩ := of_atomicWrite h
  obtain ⟨loc, -, hfind, -⟩ := of_replaceVia hreplace
  exact ⟨loc, _, hfind, rfl⟩

/-! ### Documents -/

/-- A document is read back from the path it was written to. -/
theorem readDocument_of_writeDocument {α : Type} {value? : Json → Option α} {value : α} {j : Json}
    (hbytes : Json.ofBytes? j.pretty = some j) (hvalue : value? j = some value)
    (h : fs.writeDocument path j = (.ok (), fs')) : fs'.readDocument value? path = .ok value := by
  obtain ⟨loc, f, hfind, hcontent⟩ := holds_of_atomicWrite h
  simp only [readDocument, hfind, hcontent, hbytes, Option.bind_some, hvalue]

end ArtifactIndex.FileSystem
