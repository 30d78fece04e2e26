import ArtifactIndex.Dependency.Basic
import ArtifactIndex.Proofs.Coordinate.Reading
import ArtifactIndex.Proofs.Index.Arrangement
import ArtifactIndex.Resource.OfFile

/-!
# Artifacts found by their source

The description of an archive carries the text of the revision it was built from, and an index reads
that text back when it is asked for a program or for its revisions. A revision can be dispatched
(`Revision.Dispatchable`) when it was read from coordinates or is declared by a build; its names can
then be told apart in a text, but a declared version may hold a colon, and coordinates are cut at
colons.

Main statement: the description of a dispatched archive is found by its source exactly when the
version holds no colon (`Index.found_of_ofFile`). A declared version with a colon is accepted and
the archive described, yet no index finds it (`Index.lost_of_colon`).

The list of all revisions is sorted anew each time, so there is one where the versions of the
sources are in order (`Index.revisions_of_versionsOrdered`), and there may be none elsewhere
(`Index.revisions_cyclic`).
-/

set_option autoImplicit false
set_option relaxedAutoImplicit false

namespace ArtifactIndex

/-! ### Revisions that come to be dispatched -/

namespace Program

/-- A name that is not empty, holds no colon and has no white space around it. -/
def IsPlainName (name : String) : Prop :=
  name ≠ "" ∧ ':' ∉ name.toList ∧ Text.trim name = name

theorem legible_of_isPlainName {p : Program} (hgroup : IsPlainName p.group)
    (hartifact : IsPlainName p.artifact) : p.Legible where
  group_ne_nil := by simpa using hgroup.1
  artifact_ne_nil := by simpa using hartifact.1
  colon_not_mem_group := hgroup.2.1
  colon_not_mem_artifact := hartifact.2.1
  not_isBlank_head := by
    intro c hc
    rw [← hgroup.2.2, Text.toList_trim] at hc
    exact Text.not_isBlank_of_head?_trimChars hc

end Program

theorem Dependency.program_revision {d : Dependency} {r : Revision} (h : d.revision = .ok r) :
    r.program = d.program := by
  unfold Dependency.revision at h
  split_ifs at h
  split at h
  · rw [← Except.ok.inj h]
  · simp at h

/-- Where a resolution takes its revisions from. -/
inductive Revision.Dispatchable : Revision → Prop where
  | revision {s : String} {r : Revision} : Revision.parse s = .ok r → Dispatchable r
  | archive {s : String} {a : Archive} : Archive.parse s = .ok a → Dispatchable a.revision
  | dependency {d : Dependency} {r : Revision} : Program.IsPlainName d.program.group →
      Program.IsPlainName d.program.artifact → d.revision = .ok r → Dispatchable r

theorem Revision.Dispatchable.legible {r : Revision} (h : r.Dispatchable) : r.program.Legible := by
  cases h with
  | revision hparse => exact (Revision.legible_of_parse hparse).1
  | archive hparse => exact (Archive.legible_of_parse hparse).1
  | dependency hgroup hartifact hrevision =>
    rw [Dependency.program_revision hrevision]
    exact Program.legible_of_isPlainName hgroup hartifact

/-! ### The source of a description -/

theorem KeyMap.get?_insert_self {α : Type} (m : KeyMap α) (key : String) (value : α) :
    (m.insert key value).get? key = some value := by
  change (insertEntry key value m.entries).lookup key = some value
  induction m.entries with
  | nil => simp [insertEntry]
  | cons e es ih =>
    rw [insertEntry]
    split_ifs with hlt heq
    · simp
    · simp
    · rw [List.lookup_cons, beq_eq_false_iff_ne.2 heq, ih]

namespace Resource

variable {fs : FileSystem} {path : String} {a : Archive} {d : Resource}

theorem ofFile_eq_ok (h : ofFile fs path a = .ok d) :
    ∃ url content, d = ⟨[identity a, contentOf a url content, information a], []⟩ := by
  unfold ofFile at h
  split at h
  · split at h
    · simp at h
    · exact ⟨_, _, (Except.ok.inj h).symm⟩
  · simp at h

theorem exists_ofFile {loc place : Location} {f : File}
    (hfind : fs.find path = .ok (loc, .file f)) (hcanonical : fs.canonical path = .ok place)
    (a : Archive) : ∃ d, ofFile fs path a = .ok d := by
  unfold ofFile
  rw [hfind]
  dsimp only
  rw [hcanonical]
  exact ⟨_, rfl⟩

theorem fromText?_information (a : Archive) : fromText? (information a) = some a.revision.text := by
  have hget : (information a).attributes.get? fromKey = some (.string a.revision.text) :=
    KeyMap.get?_insert_self (KeyMap.empty.insert nameKey (.string a.text)) fromKey _
  rw [fromText?, hget]
  rfl

/-- The source is what the text of the revision can be read as. -/
theorem source_of_ofFile (h : ofFile fs path a = .ok d) :
    d.source = (Revision.parse a.revision.text).toOption := by
  obtain ⟨url, content, rfl⟩ := ofFile_eq_ok h
  have hspace : inSpace ⟨[identity a, contentOf a url content, information a], []⟩
      informationSpace = [information a] := by
    simp [inSpace, identity, contentOf, information, Capability.ofAttributes, identitySpace,
      contentSpace, informationSpace]
  rw [source, hspace]
  simp [fromText?_information]

theorem parse_of_source {r : Revision} (h : d.source = some r) :
    ∃ s, Revision.parse s = .ok r := by
  obtain ⟨s, -, hs⟩ := List.exists_of_findSome?_eq_some h
  cases hparse : Revision.parse s with
  | error e => simp [hparse, Except.toOption] at hs
  | ok found =>
    rw [hparse] at hs
    obtain rfl := Option.some.inj hs
    exact ⟨s, hparse⟩

theorem isFrom_iff {p : Program} : d.isFrom p ↔ ∃ r, d.source = some r ∧ r.program = p := by
  simp [isFrom, Option.any_eq_true]

end Resource

/-! ### Queries -/

namespace Index

theorem mem_dropRepeats {r : Revision} {rs : List Revision} : r ∈ dropRepeats rs ↔ r ∈ rs := by
  fun_induction dropRepeats rs with
  | case1 s rest ih => simp [ih]
  | case2 s t rest hne ih => simp [ih]
  | case3 rs => rfl

theorem mem_revisions {x : Index} {rs : List Revision} (h : x.revisions = .done rs) {r : Revision} :
    r ∈ rs ↔ ∃ d ∈ x.resources, d.source = some r := by
  unfold revisions at h
  cases hsort : sort? compare (x.resources.filterMap Resource.source) with
  | none => simp [hsort, Ending.ofOption, Ending.map] at h
  | some sorted =>
    rw [hsort, Ending.ofOption, Ending.map, Ending.done.injEq] at h
    rw [← h, mem_dropRepeats, (perm_of_sort? hsort).mem_iff, List.mem_filterMap]

/-- Sources whose versions are in order are sorted without fail. -/
theorem revisions_of_versionsOrdered {x : Index} (h : VersionsOrdered x.resources) :
    x.revisions = .done (dropRepeats (sortBy compare (x.resources.filterMap Resource.source))) := by
  have hsources : Revision.VersionsOrdered fun r ↦ ∃ d ∈ x.resources, d.source = some r := h
  rw [revisions, Revision.sort?_of_versionsOrdered (hsources.mono fun _ ↦ List.mem_filterMap.1)]
  rfl

theorem mem_find {x : Index} {p : Program} {d : Resource} :
    d ∈ x.find p ↔ d ∈ x.resources ∧ d.isFrom p :=
  List.mem_filter

/-- No index lists a revision that cannot be read. -/
theorem not_mem_revisions_of_colon {r : Revision} (hcolon : ':' ∈ r.version.literal.toList)
    (x : Index) : ∀ rs, x.revisions = .done rs → r ∉ rs := by
  intro rs hrs hr
  obtain ⟨d, -, hsource⟩ := (mem_revisions hrs).1 hr
  obtain ⟨s, hparse⟩ := Resource.parse_of_source hsource
  exact (Revision.legible_of_parse hparse).2 hcolon

/-! ### Main statement -/

variable {fs : FileSystem} {path : String} {a : Archive} {d : Resource}

theorem find_of_source {r : Revision} (h : d.source = some r) (x : Index) (hd : d ∈ x.resources) :
    d ∈ x.find r.program ∧ (∀ rs, x.revisions = .done rs → r ∈ rs) ∧
      (VersionsOrdered x.resources → ∃ rs, x.revisions = .done rs) :=
  ⟨mem_find.2 ⟨hd, Resource.isFrom_iff.2 ⟨r, h, rfl⟩⟩, fun _ hrs ↦ (mem_revisions hrs).2 ⟨d, hd, h⟩,
    fun hordered ↦ ⟨_, revisions_of_versionsOrdered hordered⟩⟩

theorem not_mem_find_of_source (h : d.source = none) (x : Index) (p : Program) : d ∉ x.find p := by
  intro hd
  obtain ⟨r, hsource, -⟩ := Resource.isFrom_iff.1 (mem_find.1 hd).2
  rw [h] at hsource
  cases hsource

/-- The description of an archive that was dispatched is found by its source, unless the version
holds a colon; coordinates name no such version, but a build may declare one. If it is found its
revision is listed where there is a list at all, as there is if the versions of all sources are in
order. -/
theorem found_of_ofFile (hdispatch : a.revision.Dispatchable)
    (hbuilt : Resource.ofFile fs path a = .ok d) :
    (':' ∉ a.revision.version.literal.toList →
      d.source = some a.revision ∧ d.isFrom a.revision.program ∧
      ∀ x : Index, d ∈ x.resources → d ∈ x.find a.revision.program ∧
        (∀ rs, x.revisions = .done rs → a.revision ∈ rs) ∧
        (VersionsOrdered x.resources → ∃ rs, x.revisions = .done rs)) ∧
    (':' ∈ a.revision.version.literal.toList →
      d.source = none ∧
      ∀ x : Index, (∀ rs, x.revisions = .done rs → a.revision ∉ rs) ∧ ∀ p, d ∉ x.find p) ∧
    ((∃ s, Revision.parse s = .ok a.revision) ∨
        (∃ s b, Archive.parse s = .ok b ∧ b.revision = a.revision) →
      ':' ∉ a.revision.version.literal.toList) := by
  have hlegible := hdispatch.legible
  have hsource := Resource.source_of_ofFile hbuilt
  refine ⟨fun hcolon ↦ ?_, fun hcolon ↦ ?_, ?_⟩
  · rw [Revision.parse_text hlegible hcolon] at hsource
    exact ⟨hsource, Resource.isFrom_iff.2 ⟨_, hsource, rfl⟩, find_of_source hsource⟩
  · rw [Revision.parse_text_of_mem hlegible hcolon] at hsource
    exact ⟨hsource, fun x ↦ ⟨not_mem_revisions_of_colon hcolon x, not_mem_find_of_source hsource x⟩⟩
  · rintro (⟨s, hparse⟩ | ⟨s, b, hparse, heq⟩)
    · exact (Revision.legible_of_parse hparse).2
    · exact heq ▸ (Archive.legible_of_parse hparse).2

/-- A working directory with one file in it. -/
def oneFile : FileSystem :=
  ⟨[(["b.jar"], .file ⟨[], 0, FileSystem.fileMode⟩)], ⟨["work"], 5, FileSystem.directoryMode⟩, 0⟩

theorem find_oneFile :
    oneFile.find "b.jar" = .ok (["b.jar"], .file ⟨[], 0, FileSystem.fileMode⟩) := by
  decide +kernel

theorem canonical_oneFile : oneFile.canonical "b.jar" = .ok ["work", "b.jar"] := by
  decide +kernel

theorem found_of_ofFile_declared :
    let declared : Dependency := ⟨⟨"g", "b"⟩, " 1-rc+2 ", .compile, false⟩
    let r : Revision := ⟨⟨"g", "b"⟩, ⟨"1-rc+2", by decide +kernel⟩⟩
    declared.revision = .ok r ∧ ∃ d, Resource.ofFile oneFile "b.jar" (.jar r) = .ok d ∧
      d.source = some r ∧ d.isFrom ⟨"g", "b"⟩ ∧
      ∀ x : Index, d ∈ x.resources → d ∈ x.find ⟨"g", "b"⟩ ∧
        (∀ rs, x.revisions = .done rs → r ∈ rs) ∧
        (VersionsOrdered x.resources → ∃ rs, x.revisions = .done rs) := by
  intro declared r
  have hrevision : declared.revision = .ok r := by decide +kernel
  have hplain : Program.IsPlainName "g" ∧ Program.IsPlainName "b" := by
    unfold Program.IsPlainName
    decide +kernel
  have hdispatch : r.Dispatchable := .dependency hplain.1 hplain.2 hrevision
  obtain ⟨d, hd⟩ := Resource.exists_ofFile find_oneFile canonical_oneFile (.jar r)
  exact ⟨hrevision, d, hd, (found_of_ofFile (a := .jar r) hdispatch hd).1 (by decide +kernel)⟩

/-- A declared version that holds a colon: the archive is described, and nothing finds it. -/
theorem lost_of_colon :
    let declared : Dependency := ⟨⟨"g", "b"⟩, "1:2", .compile, false⟩
    let r : Revision := ⟨⟨"g", "b"⟩, ⟨"1:2", by decide +kernel⟩⟩
    Program.IsPlainName "g" ∧ Program.IsPlainName "b" ∧ declared.revision = .ok r ∧
      ∃ d, Resource.ofFile oneFile "b.jar" (.jar r) = .ok d ∧ d.source = none ∧
        ∀ x : Index, d ∉ x.find ⟨"g", "b"⟩ ∧ ∀ rs, x.revisions = .done rs → r ∉ rs := by
  intro declared r
  have hrevision : declared.revision = .ok r := by decide +kernel
  have hplain : Program.IsPlainName "g" ∧ Program.IsPlainName "b" := by
    unfold Program.IsPlainName
    decide +kernel
  have hcolon : ':' ∈ r.version.literal.toList := by decide +kernel
  obtain ⟨d, hd⟩ := Resource.exists_ofFile find_oneFile canonical_oneFile (.jar r)
  have hsource := Resource.source_of_ofFile hd
  have hlegible : r.program.Legible := Program.legible_of_isPlainName hplain.1 hplain.2
  rw [Archive.jar, Revision.parse_text_of_mem hlegible hcolon] at hsource
  exact ⟨hplain.1, hplain.2, hrevision, d, hd, hsource,
    fun x ↦ ⟨not_mem_find_of_source hsource x _, not_mem_revisions_of_colon hcolon x⟩⟩

/-- An index that holds one resource for each of the cyclic revisions gives no list of them. -/
theorem revisions_cyclic :
    let built (r : Revision) : Resource :=
      ⟨[.ofAttributes "bnd.info" [("from", .string r.text)]], []⟩
    Index.revisions { Index.new "t" "index.json" with
      resources := Revision.cyclic.map built } = .crashed := by
  intro built
  have hsources : (Revision.cyclic.map built).filterMap Resource.source = Revision.cyclic := by
    decide +kernel
  rw [revisions, hsources, Revision.sort?_cyclic]
  rfl

end Index
end ArtifactIndex
