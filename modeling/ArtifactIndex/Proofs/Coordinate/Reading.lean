import ArtifactIndex.Coordinate.Reader
import ArtifactIndex.Proofs.Version.Reading
import Mathlib.Data.List.Basic

/-!
# Revisions read back from their texts

The text of a revision is cut at its colons when it is read. The names of a program survive that if
they hold no colon themselves and the group does not begin with white space (`Program.Legible`), as
the names in every text that can be read do (`Revision.legible_of_parse`,
`Archive.legible_of_parse`). Then the version decides: a revision is read back from its text if its
version holds no colon (`Revision.parse_text`), and if it does hold one, the text cannot be read at
all (`Revision.parse_text_of_mem`), although versions may hold colons.
-/

set_option autoImplicit false
set_option relaxedAutoImplicit false

namespace ArtifactIndex

/-! ### Pieces of a text -/

namespace Text

variable {sep : Char → Bool} {cs piece : List Char} {rest : List (List Char)}

theorem splitBy_eq_splitOnP (sep : Char → Bool) (cs : List Char) :
    splitBy sep cs = cs.splitOnP sep := by
  induction cs with
  | nil => exact List.splitOnP_nil.symm
  | cons c cs ih =>
    rw [splitBy, List.splitOnP_cons_eq_if_modifyHead, ih]
    cases hrest : cs.splitOnP sep with
    | nil => exact absurd hrest (List.splitOnP_ne_nil sep cs)
    | cons piece rest => rfl

theorem splitBy_append_cons {d : Char} (hd : sep d) (before after : List Char) :
    splitBy sep (before ++ d :: after) = splitBy sep before ++ splitBy sep after := by
  simp only [splitBy_eq_splitOnP, List.splitOnP_append_cons before after hd]

theorem splitBy_of_not_mem {mark : Char} (h : mark ∉ cs) : splitBy (· == mark) cs = [cs] := by
  rw [splitBy_eq_splitOnP, List.splitOnP_eq_singleton]
  simpa using fun c hc (heq : c = mark) ↦ h (heq ▸ hc)

/-- No piece holds what the text was cut at. -/
theorem sep_eq_false_of_mem_splitBy (h : piece ∈ splitBy sep cs) : ∀ c ∈ piece, sep c = false := by
  induction cs generalizing piece with
  | nil =>
    obtain rfl := List.mem_singleton.1 h
    simp
  | cons c cs ih =>
    rw [splitBy] at h
    split_ifs at h with hc
    · rcases List.mem_cons.1 h with rfl | h
      · simp
      · exact ih h
    · cases hrest : splitBy sep cs with
      | nil => exact absurd hrest (splitBy_ne_nil sep cs)
      | cons first rest =>
        rw [hrest] at h ih
        rcases List.mem_cons.1 h with rfl | h
        · intro d hd
          rcases List.mem_cons.1 hd with rfl | hd
          · simpa using hc
          · exact ih List.mem_cons_self d hd
        · exact ih (List.mem_cons_of_mem _ h)

/-- A first piece that is not empty begins as the text does. -/
theorem head?_eq_of_splitBy (h : splitBy sep cs = piece :: rest) (hne : piece ≠ []) :
    piece.head? = cs.head? := by
  cases cs with
  | nil =>
    obtain ⟨rfl, -⟩ := List.cons.inj h
    rfl
  | cons c cs =>
    rw [splitBy] at h
    split_ifs at h
    · obtain ⟨rfl, -⟩ := List.cons.inj h
      exact absurd rfl hne
    · split at h <;>
      · obtain ⟨rfl, -⟩ := List.cons.inj h
        rfl

/-- A text that has been trimmed begins with no white space. -/
theorem not_isBlank_of_head?_trimChars {c : Char} (h : c ∈ (trimChars cs).head?) : ¬ isBlank c := by
  obtain ⟨after, -, hstart⟩ := exists_trimEnd (trimStart cs)
  have hhead : c ∈ (cs.dropWhile isBlank).head? := by
    change c ∈ (trimStart cs).head?
    rw [hstart, List.head?_append]
    exact Option.or_eq_some_iff.2 (Or.inl h)
  have hnot := List.head?_dropWhile_not isBlank cs
  rw [hhead] at hnot
  simpa using hnot

end Text

/-! ### Names -/

/-- Names that can be told apart in a text. -/
structure Program.Legible (p : Program) : Prop where
  group_ne_nil : p.group.toList ≠ []
  artifact_ne_nil : p.artifact.toList ≠ []
  colon_not_mem_group : ':' ∉ p.group.toList
  colon_not_mem_artifact : ':' ∉ p.artifact.toList
  not_isBlank_head : ∀ c ∈ p.group.toList.head?, ¬ Text.isBlank c

namespace Coordinate

variable {s group artifact version : String} {rest : List String}

theorem colon_not_mem_of_mem_parts {part : String} (h : part ∈ parts s) : ':' ∉ part.toList := by
  obtain ⟨piece, hpiece, rfl⟩ := List.mem_map.1 h
  intro hcolon
  rw [String.toList_ofList] at hcolon
  simpa using Text.sep_eq_false_of_mem_splitBy hpiece ':' hcolon

theorem legible_of_parts (h : parts s = group :: artifact :: rest) (hgroup : group ≠ "")
    (hartifact : artifact ≠ "") : Program.Legible ⟨group, artifact⟩ := by
  have hgroupNil : group.toList ≠ [] := by simpa using hgroup
  have hcolon : ∀ part ∈ group :: artifact :: rest, ':' ∉ part.toList :=
    h ▸ fun _ ↦ colon_not_mem_of_mem_parts
  refine ⟨hgroupNil, by simpa using hartifact, hcolon group (by simp), hcolon artifact (by simp),
    fun c hc ↦ ?_⟩
  obtain ⟨piece, pieces, hsplit, hpiece, -⟩ := List.map_eq_cons_iff.1 h
  rw [← hpiece, String.toList_ofList] at hc hgroupNil
  rw [Text.head?_eq_of_splitBy hsplit hgroupNil] at hc
  exact Text.not_isBlank_of_head?_trimChars hc

theorem colon_not_mem_literal {v : Version} (hversion : version ∈ parts s)
    (h : Version.parse version = .ok v) : ':' ∉ v.literal.toList := by
  obtain ⟨before, after, -, -, heq⟩ := Version.parse_eq_ok_iff.1 h
  have hcolon := colon_not_mem_of_mem_parts hversion
  simp only [heq, List.mem_append, not_or] at hcolon
  exact hcolon.2.1

theorem mapError_eq_ok_iff {α ε ε' : Type} {f : ε → ε'} {result : Except ε α} {a : α} :
    result.mapError f = .ok a ↔ result = .ok a := by
  cases result <;> simp [Except.mapError]

theorem readRevision_eq_ok {ps : List String} {r : Revision} (h : readRevision ps = .ok r) :
    ∃ group artifact version, ps = [group, artifact, version] ∧ group ≠ "" ∧ artifact ≠ "" ∧
      r.program = ⟨group, artifact⟩ ∧ Version.parse version = .ok r.version := by
  unfold readRevision at h
  split at h
  case h_1 group artifact version =>
    split_ifs at h with hempty
    obtain ⟨hgroup, hartifact⟩ := not_or.1 hempty
    cases hread : readVersion version with
    | error fault => simp [hread, Except.map] at h
    | ok v =>
      rw [hread] at h
      obtain rfl := Except.ok.inj h
      exact ⟨group, artifact, version, rfl, hgroup, hartifact, rfl, mapError_eq_ok_iff.1 hread⟩
  case h_2 => simp at h

/-- An archive takes over its parts, but for an extension that is left empty. -/
theorem readArchiveParts_eq_ok_iff {extension classifier : String} {a : Archive} :
    readArchiveParts group artifact extension classifier version = .ok a ↔
      group ≠ "" ∧ artifact ≠ "" ∧ ∃ v, Version.parse version = .ok v ∧
        a = ⟨⟨⟨group, artifact⟩, v⟩,
          if extension = "" then Archive.defaultExtension else extension, classifier⟩ := by
  unfold readArchiveParts
  by_cases hempty : group = "" ∨ artifact = ""
  · rw [if_pos hempty]
    refine iff_of_false (by simp) fun h ↦ ?_
    exact hempty.elim h.1 h.2.1
  · obtain ⟨hgroup, hartifact⟩ := not_or.1 hempty
    rw [if_neg hempty, readVersion]
    cases hread : Version.parse version with
    | error e => simp [Except.map, Except.mapError]
    | ok v => simp [Except.map, Except.mapError, hgroup, hartifact, eq_comm]

/-- Which parts an archive is read from; extension and classifier may be missing. -/
theorem readArchive_eq_ok {ps : List String} {a : Archive} (h : readArchive ps = .ok a) :
    ∃ group artifact extension classifier version rest, ps = group :: artifact :: rest ∧
      version ∈ rest ∧ extension ∈ "" :: rest ∧ classifier ∈ "" :: rest ∧
      readArchiveParts group artifact extension classifier version = .ok a := by
  unfold readArchive at h
  split at h
  case h_1 group artifact version =>
    exact ⟨group, artifact, "", "", version, _, rfl, by simp, by simp, by simp, h⟩
  case h_2 group artifact extension version =>
    exact ⟨group, artifact, extension, "", version, _, rfl, by simp, by simp, by simp, h⟩
  case h_3 group artifact extension classifier version =>
    exact ⟨group, artifact, extension, classifier, version, _, rfl, by simp, by simp, by simp, h⟩
  case h_4 => simp at h

end Coordinate

/-! ### What was read -/

open Coordinate (parts)

theorem Revision.legible_of_parse {s : String} {r : Revision} (h : Revision.parse s = .ok r) :
    r.program.Legible ∧ ':' ∉ r.version.literal.toList := by
  obtain ⟨group, artifact, version, hparts, hgroup, hartifact, hprogram, hversion⟩ :=
    Coordinate.readRevision_eq_ok (Coordinate.mapError_eq_ok_iff.1 h)
  have hmem : version ∈ parts s := by simp [hparts]
  exact ⟨hprogram ▸ Coordinate.legible_of_parts hparts hgroup hartifact,
    Coordinate.colon_not_mem_literal hmem hversion⟩

theorem Archive.legible_of_parse {s : String} {a : Archive} (h : Archive.parse s = .ok a) :
    a.revision.program.Legible ∧ ':' ∉ a.revision.version.literal.toList := by
  obtain ⟨group, artifact, extension, classifier, version, rest, hparts, hrest, -, -, hread⟩ :=
    Coordinate.readArchive_eq_ok (Coordinate.mapError_eq_ok_iff.1 h)
  obtain ⟨hgroup, hartifact, v, hversion, rfl⟩ := Coordinate.readArchiveParts_eq_ok_iff.1 hread
  have hmem : version ∈ parts s := by simp [hparts, hrest]
  exact ⟨Coordinate.legible_of_parts hparts hgroup hartifact,
    Coordinate.colon_not_mem_literal hmem hversion⟩

/-! ### What is written -/

/-- No white space stands around a text that begins with the group of a program and ends in a
version. -/
theorem Program.Legible.trimChars_append_literal {p : Program} (h : p.Legible) (between : List Char)
    (v : Version) :
    Text.trimChars (p.group.toList ++ (between ++ v.literal.toList)) =
      p.group.toList ++ (between ++ v.literal.toList) := by
  refine Text.trimChars_eq_self (fun c hc ↦ ?_) fun c hc ↦ ?_
  · rw [List.head?_append_of_ne_nil _ h.group_ne_nil] at hc
    exact h.not_isBlank_head c hc
  · rw [← List.append_assoc, List.getLast?_append_of_ne_nil _ v.toList_literal_ne_nil] at hc
    exact v.not_isBlank_of_mem c (List.mem_of_getLast? hc)

namespace Revision

variable {r : Revision}

theorem toList_text (r : Revision) :
    r.text.toList =
      r.program.group.toList ++
        ':' :: (r.program.artifact.toList ++ ':' :: r.version.literal.toList) := by
  simp [text, Program.text]

theorem trimChars_text (h : r.program.Legible) : Text.trimChars r.text.toList = r.text.toList := by
  have hsplit : r.text.toList = r.program.group.toList ++
      ((':' :: (r.program.artifact.toList ++ [':'])) ++ r.version.literal.toList) := by
    simp [toList_text]
  rw [hsplit, h.trimChars_append_literal]

/-- The parts of a text are the names and what the version is cut into. -/
theorem parts_text (h : r.program.Legible) :
    parts r.text = r.program.group :: r.program.artifact ::
      (Text.splitBy (· == ':') r.version.literal.toList).map String.ofList := by
  rw [parts, trimChars_text h, toList_text, Text.splitBy_append_cons (by decide),
    Text.splitBy_append_cons (by decide), Text.splitBy_of_not_mem h.colon_not_mem_group,
    Text.splitBy_of_not_mem h.colon_not_mem_artifact]
  simp

/-- A revision is read back from its text if its version holds no colon. -/
theorem parse_text (h : r.program.Legible) (hcolon : ':' ∉ r.version.literal.toList) :
    Revision.parse r.text = .ok r := by
  have hgroup : r.program.group ≠ "" := by simpa using h.group_ne_nil
  have hartifact : r.program.artifact ≠ "" := by simpa using h.artifact_ne_nil
  have hversion : Coordinate.readVersion r.version.literal = .ok r.version :=
    Coordinate.mapError_eq_ok_iff.2 r.version.parse_literal
  rw [parse, parts_text h, Text.splitBy_of_not_mem hcolon]
  simp [Coordinate.readRevision, hgroup, hartifact, hversion, Except.map, Except.mapError]

/-- A colon in the version makes parts too many. -/
theorem parse_text_of_mem (h : r.program.Legible) (hcolon : ':' ∈ r.version.literal.toList) :
    Revision.parse r.text = .error ⟨r.text, .revisionParts⟩ := by
  -- what stands before the colon and what stands behind it give a piece each at least
  obtain ⟨before, after, hliteral⟩ := List.append_of_mem hcolon
  obtain ⟨first, firsts, hbefore⟩ :=
    List.exists_cons_of_ne_nil (Text.splitBy_ne_nil (· == ':') before)
  obtain ⟨second, seconds, hafter⟩ :=
    List.exists_cons_of_ne_nil (Text.splitBy_ne_nil (· == ':') after)
  have hpieces : Text.splitBy (· == ':') r.version.literal.toList =
      first :: firsts ++ second :: seconds := by
    rw [hliteral, Text.splitBy_append_cons (by decide), hbefore, hafter]
  rw [parse, parts_text h, hpieces]
  cases firsts <;> simp [Coordinate.readRevision, Except.mapError]

end Revision
end ArtifactIndex
