import ArtifactIndex.Proofs.Version.Reading
import ArtifactIndex.Proofs.Version.Scan

/-!
# Endings that do not count

Zeros behind a full stop or a hyphen, and the names of a release behind a hyphen, may be written at
the end of any version, one after the other, and change nothing (`Version.null_endings_vanish`):
`1`, `1.0`, `1-ga` and `1.0-final.00` have the same components.

An ending may close a number or a qualifier, follow a separator that has left an empty part, or
open a list inside the innermost list. In each of these places it comes to nothing when the lists
are normalized, whatever endings follow it (`NullEnding.normalize_scan_chars`). What has been read
in front of that place is the same with the ending and without it, and normalizing works from the
inside out, so the difference is gone before it gets there (`Components.normalize_scan_append`).
-/

set_option autoImplicit false
set_option relaxedAutoImplicit false

namespace ArtifactIndex

/-! ### Texts that amount to the same -/

namespace Components

theorem normalize_item_congr {xs ys : Components} (h : xs.normalize = ys.normalize)
    (c : Component) : (item c xs).normalize = (item c ys).normalize := by
  rw [normalize, normalize, h]

theorem normalize_sublist_congr {xs ys : Components} (h : xs.normalize = ys.normalize) :
    (sublist xs).normalize = (sublist ys).normalize := by
  rw [normalize, normalize, h]

/-- Texts that amount to the same from every unfinished component amount to the same behind every
text. -/
theorem normalize_scan_append {tail tail' : List Char}
    (h : ∀ run, (scan run tail).normalize = (scan run tail').normalize) (cs : List Char)
    (run : Run) :
    (scan run (cs ++ tail)).normalize = (scan run (cs ++ tail')).normalize :=
  scan_append_congr (R := fun xs ys ↦ xs.normalize = ys.normalize)
    (fun d _ _ hxs ↦ normalize_item_congr hxs d) normalize_sublist_congr cs run (h _)

theorem normalize_sublist_done {xs : Components} (h : xs.normalize = done) :
    (sublist xs).normalize = done := by
  rw [normalize, h]

/-- A separator closes the component in front of it; if nothing is left behind the separator, that
is as good as the end of the text. An empty component is null itself. -/
theorem normalize_item_close {xs : Components} (h : xs.normalize = done) (run : Run) :
    (item run.close xs).normalize = (scan run []).normalize := by
  calc (item run.close xs).normalize
    _ = (item run.close done).normalize := normalize_item_congr h run.close
    _ = (scan run []).normalize := by cases run <;> rfl

end Components

/-! ### Endings -/

def releaseNames : List String := ["ga", "final", "release"]

/-- A null component with the separator in front of it. Zeros are one more than `more`. -/
inductive NullEnding where
  | stopZeros (more : ℕ)
  | hyphenZeros (more : ℕ)
  | hyphenRelease (name : String) (h : name ∈ releaseNames)

namespace NullEnding

open Components (Run scan done)

def zeros (more : ℕ) : List Char :=
  List.replicate (more + 1) '0'

def chars : NullEnding → List Char
  | stopZeros more => '.' :: zeros more
  | hyphenZeros more => '-' :: zeros more
  | hyphenRelease name _ => '-' :: name.toList

/-- Endings one after the other. -/
def text (endings : List NullEnding) : String :=
  String.ofList (endings.flatMap chars)

theorem toList_text (endings : List NullEnding) : (text endings).toList = endings.flatMap chars :=
  String.toList_ofList

/-! ### Their characters -/

theorem releaseNames_spec : ∀ name ∈ releaseNames, name.toList ≠ [] ∧
    Qualifier.ofText name false = .release ∧ name.toList.Forall fun c ↦
      Text.isLetter c ∧ Version.admits c ∧ c ≠ 'Σ' ∧ Text.lowerChar c = [c] := by
  decide +kernel

theorem forall_mem_zeros (more : ℕ) : ∀ c ∈ zeros more, c = '0' :=
  fun _ hc ↦ List.eq_of_mem_replicate hc

/-- Every character of an ending is allowed in a version and is its own lower case. -/
theorem plain_of_mem_chars (e : NullEnding) :
    ∀ c ∈ e.chars, Version.admits c ∧ c ≠ 'Σ' ∧ Text.lowerChar c = [c] := by
  intro c hc
  cases e with
  | stopZeros more =>
    rcases List.mem_cons.1 hc with rfl | hzero
    · decide +kernel
    · rw [forall_mem_zeros more c hzero]
      decide +kernel
  | hyphenZeros more =>
    rcases List.mem_cons.1 hc with rfl | hzero
    · decide +kernel
    · rw [forall_mem_zeros more c hzero]
      decide +kernel
  | hyphenRelease name h =>
    rcases List.mem_cons.1 hc with rfl | hname
    · decide +kernel
    · exact (List.forall_iff_forall_mem.1 (releaseNames_spec name h).2.2 c hname).2

theorem plain_of_mem {endings : List NullEnding} :
    ∀ c ∈ endings.flatMap chars, Version.admits c ∧ c ≠ 'Σ' ∧ Text.lowerChar c = [c] := by
  intro c hc
  obtain ⟨e, -, hmem⟩ := List.mem_flatMap.1 hc
  exact e.plain_of_mem_chars c hmem

/-- A full stop is looked through, but a zero stands behind it. -/
theorem reachesCased_chars (endings : List NullEnding) :
    Text.reachesCased (endings.flatMap chars) = false := by
  have hstop : Text.isCaseIgnorable '.' := by
    decide +kernel
  have hzero : Text.isNeutral '0' := Text.isNeutral_of_isDigit (by decide)
  cases endings with
  | nil => rfl
  | cons e endings =>
    cases e with
    | stopZeros more =>
      have hbehind : ∀ cs, Text.reachesCased ('.' :: cs) = Text.reachesCased cs := fun cs ↦ by
        rw [Text.reachesCased, List.dropWhile_cons_of_pos hstop, Text.reachesCased]
      exact (hbehind _).trans
        (Text.reachesCased_of_startsNeutral (Text.startsNeutral_cons hzero _))
    | hyphenZeros more =>
      exact Text.reachesCased_of_startsNeutral (Text.startsNeutral_cons Text.isNeutral_hyphen _)
    | hyphenRelease name h =>
      exact Text.reachesCased_of_startsNeutral (Text.startsNeutral_cons Text.isNeutral_hyphen _)

theorem lowerChars_append (cs : List Char) (endings : List NullEnding) :
    Text.lowerChars (cs ++ endings.flatMap chars) =
      Text.lowerChars cs ++ endings.flatMap chars := by
  have hself : ∀ before, Text.lowerAfter before (endings.flatMap chars) = endings.flatMap chars :=
    fun _ ↦ Text.lowerAfter_eq_self fun c hc ↦ (plain_of_mem c hc).2
  rw [Text.lowerChars, Text.lowerAfter_append_of_eq_false (reachesCased_chars endings), hself,
    Text.lowerChars]

/-! ### They come to nothing -/

theorem decimal_zeros (more : ℕ) : decimal (zeros more) = 0 := by
  induction more with
  | zero => rfl
  | succ more ih => rw [zeros, List.replicate_succ', decimal_append, ← zeros, ih]; rfl

/-- Zeros behind a separator, if what follows them comes to nothing. -/
theorem normalize_scan_zeros {rest : List Char}
    (h : ∀ run, (scan run rest).normalize = (scan run []).normalize) (more : ℕ) :
    (scan .none (zeros more ++ rest)).normalize = done := by
  have hdigits : ∀ c ∈ zeros more, c.isDigit := by
    intro c hc
    rw [forall_mem_zeros more c hc]
    decide
  rw [Components.scan_digitRun (by simp [zeros]) hdigits, decimal_zeros, h]
  rfl

theorem normalize_scan_name {rest : List Char}
    (h : ∀ run, (scan run rest).normalize = (scan run []).normalize) {name : String}
    (hname : name ∈ releaseNames) : (scan .none (name.toList ++ rest)).normalize = done := by
  obtain ⟨hne, hrelease, hall⟩ := releaseNames_spec name hname
  have hletters : ∀ c ∈ name.toList, Text.isLetter c := fun c hc ↦
    (List.forall_iff_forall_mem.1 hall c hc).1
  rw [Components.scan_letterRun hne hletters, h, ← Components.scan_letterRun hne hletters,
    List.append_nil, Components.scan_letters hne hletters, String.ofList_toList, hrelease]
  rfl

/-- Behind every text, finished or not, endings are as good as the end. -/
theorem normalize_scan_chars (endings : List NullEnding) (run : Run) :
    (scan run (endings.flatMap chars)).normalize = (scan run []).normalize := by
  induction endings generalizing run with
  | nil => rfl
  | cons e endings ih =>
    rw [List.flatMap_cons]
    cases e with
    | stopZeros more =>
      rw [chars, List.cons_append, Components.scan_stop]
      exact Components.normalize_item_close (normalize_scan_zeros ih more) run
    | hyphenZeros more =>
      rw [chars, List.cons_append, Components.scan_hyphen]
      exact Components.normalize_item_close
        (Components.normalize_sublist_done (normalize_scan_zeros ih more)) run
    | hyphenRelease name h =>
      rw [chars, List.cons_append, Components.scan_hyphen]
      exact Components.normalize_item_close
        (Components.normalize_sublist_done (normalize_scan_name ih h)) run

end NullEnding

/-! ### Versions with endings -/

namespace Version

/-- The version with endings written behind its literal. -/
def withEndings (v : Version) (endings : List NullEnding) : Version where
  literal := v.literal ++ NullEnding.text endings
  legal := by
    have hlegal := isLegal_iff.1 v.legal
    rw [isLegal_iff, String.toList_append, NullEnding.toList_text]
    exact ⟨fun hnil ↦ hlegal.1 (List.append_eq_nil_iff.1 hnil).1,
      List.forall_mem_append.2 ⟨hlegal.2, fun c hc ↦ (NullEnding.plain_of_mem c hc).1⟩⟩

theorem components_withEndings (v : Version) (endings : List NullEnding) :
    (v.withEndings endings).components = v.components := by
  let lower := Text.lowerChars v.literal.toList
  have hscan : (Components.scan .none (lower ++ endings.flatMap NullEnding.chars)).normalize =
      (Components.scan .none (lower ++ [])).normalize :=
    Components.normalize_scan_append (NullEnding.normalize_scan_chars endings) lower .none
  rw [List.append_nil] at hscan
  change (Components.scan .none
    (Text.lowerChars (v.literal ++ NullEnding.text endings).toList)).normalize = _
  rw [String.toList_append, NullEnding.toList_text, NullEnding.lowerChars_append, hscan]
  rfl

/-- A version is read from a text without white space around it; with any endings behind that text a
version with the same components is read, which is equal to the first and stands to every other
version as the first does. -/
theorem null_endings_vanish {s : String} {v : Version} (htrim : Text.trim s = s)
    (hparse : parse s = .ok v) (endings : List NullEnding) :
    ∃ w, parse (s ++ NullEnding.text endings) = .ok w ∧
      w.literal = s ++ NullEnding.text endings ∧ w.components = v.components ∧ w.cmp v = .eq ∧
      ∀ u : Version, w.cmp u = v.cmp u ∧ u.cmp w = u.cmp v := by
  have hliteral : (v.withEndings endings).literal = s ++ NullEnding.text endings :=
    congrArg (· ++ NullEnding.text endings) ((literal_of_parse hparse).trans htrim)
  have hcomponents := v.components_withEndings endings
  have hcmp : ∀ u : Version, (v.withEndings endings).cmp u = v.cmp u := fun u ↦ by
    rw [cmp, hcomponents, ← cmp]
  refine ⟨v.withEndings endings, hliteral ▸ parse_literal _, hliteral, hcomponents,
    (hcmp v).trans v.cmp_self, fun u ↦ ⟨hcmp u, ?_⟩⟩
  rw [← cmp_swap, hcmp, cmp_swap]

/-- A literal that ends in a hyphen, and endings of every kind behind it: the first closes an empty
part, and the others open lists in the list that the hyphen has opened. -/
theorem null_endings_vanish_open :
    let v : Version := ⟨"1.x-", by decide +kernel⟩
    Text.trim "1.x-" = "1.x-" ∧ parse "1.x-" = .ok v ∧
      ∃ w, parse "1.x-.00-final-0" = .ok w ∧ w.components = v.components ∧ w.cmp v = .eq := by
  intro v
  have htrim : Text.trim "1.x-" = "1.x-" := by
    decide +kernel
  obtain ⟨w, hw, -, hcomponents, hequal, -⟩ := null_endings_vanish htrim v.parse_literal
    [.stopZeros 1, .hyphenRelease "final" (by decide), .hyphenZeros 0]
  exact ⟨htrim, v.parse_literal, w, hw, hcomponents, hequal⟩

end Version
end ArtifactIndex
