import ArtifactIndex.Proofs.Coordinate.Reading

/-!
# Archives read back from their texts

An archive is written with its extension, and with its classifier if it has one; what its
coordinates left out or left empty is not shown as they had it. The text may so have another number
of parts than the one that was read, but it is read as the same archive.

`Archive.Readable` says which archives there are texts for: the names of the program can be told
apart, no part holds a colon, and there is an extension. Each of them is read from its own text
(`Archive.parse_text`), and what is read from any text is one of them (`Archive.readable_of_parse`).
The coordinates of a revision are those of its usual archive (`Archive.parse_of_revision`).
-/

set_option autoImplicit false
set_option relaxedAutoImplicit false

namespace ArtifactIndex

namespace Text

theorem splitBy_intercalate {mark : Char} {pieces : List (List Char)} (hne : pieces ≠ [])
    (h : ∀ piece ∈ pieces, mark ∉ piece) :
    splitBy (· == mark) ([mark].intercalate pieces) = pieces := by
  rw [splitBy_eq_splitOnP, ← List.splitOn_eq_splitOnP]
  exact List.splitOn_intercalate mark h hne

end Text

namespace Archive

open Coordinate (parts)

/-- An archive that can be told from its text. -/
structure Readable (a : Archive) : Prop where
  program : a.revision.program.Legible
  colon_not_mem_version : ':' ∉ a.revision.version.literal.toList
  extension_ne_empty : a.extension ≠ ""
  colon_not_mem_extension : ':' ∉ a.extension.toList
  colon_not_mem_classifier : ':' ∉ a.classifier.toList

/-- The parts of the text of an archive. -/
def fields (a : Archive) : List String :=
  [a.revision.program.group, a.revision.program.artifact, a.extension] ++
    (if a.classifier = "" then [] else [a.classifier]) ++ [a.revision.version.literal]

variable {s : String} {a : Archive} {r : Revision}

/-! ### What is written -/

theorem toList_text (a : Archive) :
    a.text.toList = [':'].intercalate (a.fields.map String.toList) := by
  unfold text fields classifierPart
  split <;> simp [Program.text, List.intercalate_cons_cons, List.intercalate_singleton]

theorem Readable.colon_not_mem_fields (h : a.Readable) :
    ∀ field ∈ a.fields, ':' ∉ field.toList := by
  unfold fields
  split <;> simp [h.program.colon_not_mem_group, h.program.colon_not_mem_artifact,
    h.colon_not_mem_extension, h.colon_not_mem_classifier, h.colon_not_mem_version]

theorem Readable.trimChars_text (h : a.Readable) :
    Text.trimChars a.text.toList = a.text.toList := by
  have hsplit : ∃ between, a.text.toList = a.revision.program.group.toList ++
      (between ++ a.revision.version.literal.toList) :=
    ⟨':' :: a.revision.program.artifact.toList ++ ':' :: a.extension.toList ++
      (classifierPart ":" a.classifier).toList ++ [':'], by simp [text, Program.text]⟩
  obtain ⟨between, hsplit⟩ := hsplit
  rw [hsplit, h.program.trimChars_append_literal]

theorem Readable.parts_text (h : a.Readable) : parts a.text = a.fields := by
  have hpieces : ∀ piece ∈ a.fields.map String.toList, ':' ∉ piece := by
    simpa using h.colon_not_mem_fields
  rw [parts, h.trimChars_text, toList_text,
    Text.splitBy_intercalate (by simp [fields]) hpieces, List.map_map]
  simp

theorem Readable.readArchive_fields (h : a.Readable) : Coordinate.readArchive a.fields = .ok a := by
  have hparts : Coordinate.readArchiveParts a.revision.program.group a.revision.program.artifact
      a.extension a.classifier a.revision.version.literal = .ok a :=
    Coordinate.readArchiveParts_eq_ok_iff.2 ⟨by simpa using h.program.group_ne_nil,
      by simpa using h.program.artifact_ne_nil, a.revision.version,
      a.revision.version.parse_literal, by rw [if_neg h.extension_ne_empty]⟩
  by_cases hclassifier : a.classifier = ""
  · rw [hclassifier] at hparts
    simpa [fields, hclassifier, Coordinate.readArchive] using hparts
  · simpa [fields, hclassifier, Coordinate.readArchive] using hparts

theorem parse_text (h : a.Readable) : parse a.text = .ok a := by
  rw [parse, h.parts_text]
  exact Coordinate.mapError_eq_ok_iff.2 h.readArchive_fields

/-! ### What was read -/

theorem readable_of_parse (h : parse s = .ok a) : a.Readable := by
  obtain ⟨group, artifact, extension, classifier, version, rest, hparts, -, hextension, hclassifier,
    hread⟩ := Coordinate.readArchive_eq_ok (Coordinate.mapError_eq_ok_iff.1 h)
  obtain ⟨-, -, v, -, rfl⟩ := Coordinate.readArchiveParts_eq_ok_iff.1 hread
  have hcolon : ∀ part ∈ "" :: rest, ':' ∉ part.toList := by
    intro part hpart
    rcases List.mem_cons.1 hpart with rfl | hrest
    · simp
    · exact Coordinate.colon_not_mem_of_mem_parts (s := s) (by simp [hparts, hrest])
  refine ⟨(legible_of_parse h).1, (legible_of_parse h).2, ?_, ?_, hcolon classifier hclassifier⟩
  · change (if extension = "" then defaultExtension else extension) ≠ ""
    split_ifs with hempty
    · decide
    · exact hempty
  · change ':' ∉ (if extension = "" then defaultExtension else extension).toList
    split_ifs
    · decide
    · exact hcolon extension hextension

/-- Where a revision is read, the other reader finds its usual archive. -/
theorem parse_of_revision (h : Revision.parse s = .ok r) : parse s = .ok (jar r) := by
  obtain ⟨group, artifact, version, hparts, hgroup, hartifact, hprogram, hversion⟩ :=
    Coordinate.readRevision_eq_ok (Coordinate.mapError_eq_ok_iff.1 h)
  rw [parse, hparts]
  refine Coordinate.mapError_eq_ok_iff.2 (Coordinate.readArchiveParts_eq_ok_iff.2
    ⟨hgroup, hartifact, r.version, hversion, ?_⟩)
  rw [← hprogram]
  rfl

end Archive

/-! ### Main statement -/

/-- What was read from coordinates is read from its own text again, and a revision is read as its
usual archive where archives are asked for. The archives that are read from some text are those
whose parts can be told apart. -/
theorem Coordinate.texts_read_back :
    (∀ (s : String) (a : Archive), Archive.parse s = .ok a → Archive.parse a.text = .ok a) ∧
      (∀ (s : String) (r : Revision), Revision.parse s = .ok r → Revision.parse r.text = .ok r) ∧
      (∀ (s : String) (r : Revision), Revision.parse s = .ok r →
        Archive.parse s = .ok ⟨r, "jar", ""⟩) ∧
      ∀ a : Archive, (∃ s, Archive.parse s = .ok a) ↔ a.Readable := by
  refine ⟨fun s a h ↦ Archive.parse_text (Archive.readable_of_parse h), fun s r h ↦ ?_,
    fun s r h ↦ Archive.parse_of_revision h, fun a ↦ ⟨?_, fun h ↦ ⟨a.text, Archive.parse_text h⟩⟩⟩
  · obtain ⟨hlegible, hcolon⟩ := Revision.legible_of_parse h
    exact Revision.parse_text hlegible hcolon
  · rintro ⟨s, h⟩
    exact Archive.readable_of_parse h

/-- Five parts of which two are empty, four with a blank for an extension, and a revision, with
white space around the whole and around the version. -/
theorem Coordinate.texts_read_back_padded :
    let v : Version := ⟨"1.8", by decide +kernel⟩
    let empty : Archive := ⟨⟨⟨"g", "a b"⟩, v⟩, "jar", ""⟩
    let blank : Archive := ⟨⟨⟨"g", "a"⟩, v⟩, " ", ""⟩
    let revision : Revision := ⟨⟨"g", "a"⟩, v⟩
    (Archive.parse "\t g:a b::: 1.8 " = .ok empty ∧ empty.text = "g:a b:jar:1.8" ∧
      Archive.parse empty.text = .ok empty) ∧
    (Archive.parse "g:a: :1.8\n" = .ok blank ∧ Archive.parse blank.text = .ok blank) ∧
    (Revision.parse " g:a:\t1.8" = .ok revision ∧ Revision.parse revision.text = .ok revision ∧
      Archive.parse " g:a:\t1.8" = .ok ⟨revision, "jar", ""⟩) := by
  intro v empty blank revision
  obtain ⟨harchive, hrevision, hjar, -⟩ := texts_read_back
  have hempty : Archive.parse "\t g:a b::: 1.8 " = .ok empty := by
    decide +kernel
  have hblank : Archive.parse "g:a: :1.8\n" = .ok blank := by
    decide +kernel
  have hread : Revision.parse " g:a:\t1.8" = .ok revision := by
    decide +kernel
  exact ⟨⟨hempty, by decide +kernel, harchive _ _ hempty⟩, ⟨hblank, harchive _ _ hblank⟩, hread,
    hrevision _ _ hread, hjar _ _ hread⟩

end ArtifactIndex
