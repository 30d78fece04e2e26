import ArtifactIndex.Proofs.Version.Naming
import ArtifactIndex.Proofs.Version.Reading
import ArtifactIndex.Proofs.Version.Scan

/-!
# Release-style versions

Most versions in use are numbers with full stops between them, perhaps with a qualifier behind a
hyphen, and perhaps with a number right behind the qualifier: `1.0`, `2.13.4`, `1.0-SNAPSHOT`,
`3.0-rc2`. `ReleaseLiteral` is that shape. Numbers may be of any length and lead with zeros, and a
qualifier may hold every character a version may hold except the ones that would cut it.

Such a version is read as written (`Version.parse_literal`), and its components are the
numbers without the zeros at their end, followed by what the qualifier and its number amount to
(`ReleaseLiteral.components_version`).
-/

set_option autoImplicit false
set_option relaxedAutoImplicit false

namespace ArtifactIndex

open Components (row dropZeros)
open Text (isLetter)

/-! ### The shape -/

/-- A number as it is written. -/
structure DigitRun where
  digits : List Char
  nonempty : digits ≠ []
  all_digits : ∀ c ∈ digits, c.isDigit

def DigitRun.value (r : DigitRun) : ℕ :=
  decimal r.digits

/-- A qualifier with the number behind it, if there is one. -/
structure Suffix where
  name : List Char
  number : Option DigitRun
  nonempty : name ≠ []
  letters : ∀ c ∈ name, Version.admits c ∧ isLetter c

namespace Suffix

def after (q : Suffix) : List Char :=
  q.number.elim [] DigitRun.digits

def value (q : Suffix) : ℕ :=
  q.number.elim 0 DigitRun.value

/-- The name in lower case, as a text of its own. -/
def spelling (q : Suffix) : String :=
  String.ofList (Text.lowerChars q.name)

def meaning (q : Suffix) : String :=
  canonicalName q.spelling q.number.isSome

theorem isDigit_of_mem_after (q : Suffix) : ∀ c ∈ q.after, c.isDigit := by
  unfold after
  cases q.number with
  | none => simp
  | some r => exact r.all_digits

theorem not_isLetter_of_mem_after (q : Suffix) : ∀ c ∈ q.after, ¬ isLetter c :=
  fun c hc ↦ Components.not_isLetter_of_isDigit (q.isDigit_of_mem_after c hc)

theorem spelling_ne_empty (q : Suffix) : q.spelling ≠ "" := by
  have hne : Text.lowerChars q.name ≠ [] := Text.lowerChars_ne_nil q.nonempty
  simpa [spelling] using hne

end Suffix

/-- The literals `N(.N)*[-Q[M]]`. A qualifier that means a release is not numbered, except with
zero. -/
structure ReleaseLiteral where
  runs : List DigitRun
  suffix : Option Suffix
  nonempty : runs ≠ []
  unnumbered : ∀ q ∈ suffix, q.meaning = "release" → q.value = 0

namespace ReleaseLiteral

def front (s : ReleaseLiteral) : List Char :=
  ['.'].intercalate (s.runs.map DigitRun.digits)

def back (s : ReleaseLiteral) : List Char :=
  s.suffix.elim [] fun q ↦ '-' :: (q.name ++ q.after)

def literal (s : ReleaseLiteral) : String :=
  String.ofList (s.front ++ s.back)

theorem toList_literal (s : ReleaseLiteral) : s.literal.toList = s.front ++ s.back :=
  String.toList_ofList

/-! ### A literal is a version -/

theorem eq_or_mem_of_mem_intercalate {c : Char} {parts : List (List Char)}
    (h : c ∈ ['.'].intercalate parts) : c = '.' ∨ ∃ part ∈ parts, c ∈ part := by
  induction parts with
  | nil => simp [List.intercalate] at h
  | cons part parts ih =>
    cases parts with
    | nil => exact .inr ⟨part, by simp, by simpa [List.intercalate_singleton] using h⟩
    | cons part' parts =>
      rw [List.intercalate_cons_cons, List.mem_append, List.mem_append, List.mem_singleton] at h
      rcases h with (hpart | hstop) | hrest
      · exact .inr ⟨part, List.mem_cons_self, hpart⟩
      · exact .inl hstop
      · refine (ih hrest).imp_right ?_
        rintro ⟨q, hq, hc⟩
        exact ⟨q, List.mem_cons_of_mem _ hq, hc⟩

theorem not_isLetter_of_mem_front (s : ReleaseLiteral) : ∀ c ∈ s.front, ¬ isLetter c := by
  intro c hc
  rcases eq_or_mem_of_mem_intercalate hc with rfl | ⟨part, hpart, hmem⟩
  · decide
  · obtain ⟨r, -, rfl⟩ := List.mem_map.1 hpart
    exact Components.not_isLetter_of_isDigit (r.all_digits c hmem)

theorem front_ne_nil (s : ReleaseLiteral) : s.front ≠ [] := by
  unfold front
  obtain ⟨r, runs, hruns⟩ := List.exists_cons_of_ne_nil s.nonempty
  rw [hruns, List.map_cons]
  cases runs with
  | nil => simpa [List.intercalate_singleton] using r.nonempty
  | cons r' runs => simp [List.intercalate_cons_cons]

theorem admits_of_not_isLetter {c : Char} (h : ¬ isLetter c) : Version.admits c :=
  Text.of_ascii (P := fun c ↦ ¬ isLetter c → Version.admits c) (by decide +kernel)
    (Text.toNat_lt_of_not_isLetter h) h

theorem admits_of_mem_back (s : ReleaseLiteral) : ∀ c ∈ s.back, Version.admits c := by
  intro c hc
  unfold back at hc
  cases hsuffix : s.suffix with
  | none => simp [hsuffix] at hc
  | some q =>
    rw [hsuffix, Option.elim_some, List.mem_cons, List.mem_append] at hc
    rcases hc with rfl | hname | hafter
    · decide
    · exact (q.letters c hname).1
    · exact admits_of_not_isLetter (q.not_isLetter_of_mem_after c hafter)

theorem isLegal_literal (s : ReleaseLiteral) : Version.isLegal s.literal := by
  rw [Version.isLegal_iff, toList_literal]
  refine ⟨fun hnil ↦ s.front_ne_nil (List.append_eq_nil_iff.1 hnil).1, ?_⟩
  rw [List.forall_mem_append]
  exact ⟨fun c hc ↦ admits_of_not_isLetter (s.not_isLetter_of_mem_front c hc),
    s.admits_of_mem_back⟩

def version (s : ReleaseLiteral) : Version :=
  ⟨s.literal, s.isLegal_literal⟩

end ReleaseLiteral

/-! ### Components behind a row of numbers -/

namespace Components

/-- The number behind a qualifier, where zero is as good as none. -/
def numbered (n : ℕ) : Components :=
  if n = 0 then done else sublist (item (.number n) done)

/-- A qualifier and the number behind it, where a release is as good as neither. -/
def qualified (p : Qualifier) (n : ℕ) : Components :=
  if p.rank = Qualifier.release.rank then done else sublist (item (.qualifier p) (numbered n))

theorem startsClosed_numbered (n : ℕ) : (numbered n).startsClosed := by
  unfold numbered
  split <;> rfl

theorem startsClosed_qualified (p : Qualifier) (n : ℕ) : (qualified p n).startsClosed := by
  unfold qualified
  split <;> rfl

theorem normalize_numbered (n : ℕ) :
    (sublist (item (.number n) done)).normalize = numbered n := by
  have hitem : (item (.number n) done).normalize =
      if n = 0 then done else item (.number n) done := by
    simp [normalize, isNull_number, startsClosed]
  rw [normalize, hitem, numbered]
  by_cases hzero : n = 0
  · rw [if_pos hzero, if_pos hzero]
  · rw [if_neg hzero, if_neg hzero]

theorem normalize_qualified {p : Qualifier} {n : ℕ} {rest : Components}
    (hrest : rest.normalize = numbered n) (hrelease : p.rank = Qualifier.release.rank → n = 0) :
    (sublist (item (.qualifier p) rest)).normalize = qualified p n := by
  have hitem : (item (.qualifier p) rest).normalize =
      if p.rank = Qualifier.release.rank then numbered n
      else item (.qualifier p) (numbered n) := by
    simp [normalize, hrest, isNull_qualifier, startsClosed_numbered]
  rw [normalize, hitem, qualified]
  by_cases hnull : p.rank = Qualifier.release.rank
  · rw [if_pos hnull, if_pos hnull, hrelease hnull]
    rfl
  · rw [if_neg hnull, if_neg hnull]

end Components

/-! ### Reading a release-style version -/

namespace Suffix

def qualifier (q : Suffix) : Qualifier :=
  .ofText q.spelling q.number.isSome

theorem name_qualifier (q : Suffix) : q.qualifier.name = q.meaning :=
  Qualifier.name_ofText q.spelling_ne_empty _

theorem meaning_of_rank_eq {q : Suffix} (h : q.qualifier.rank = Qualifier.release.rank) :
    q.meaning = "release" := by
  rw [← name_qualifier, Qualifier.eq_release_of_rank_eq h]
  rfl

/-- The hyphen in front and the digits behind keep the name a text of its own. -/
theorem lowerAfter_hyphen (q : Suffix) (before : List Char) :
    Text.lowerAfter before ('-' :: (q.name ++ q.after)) =
      '-' :: (Text.lowerChars q.name ++ q.after) := by
  have hcut : Text.StartsNeutral q.after := fun c hc ↦
    Text.isNeutral_of_isDigit (q.isDigit_of_mem_after c (List.mem_of_mem_head? hc))
  rw [Text.lowerAfter_cons_of_isNeutral Text.isNeutral_hyphen, Text.lowerChar_hyphen,
    Text.lowerChars, Text.lowerAfter_append hcut,
    Text.lowerAfter_of_forall_not_isLetter q.not_isLetter_of_mem_after]
  rfl

theorem normalize_scan (q : Suffix) (h : q.meaning = "release" → q.value = 0) :
    (Components.sublist
      (.scan .none (Text.lowerChars q.name ++ q.after))).normalize =
      .qualified q.qualifier q.value := by
  have hne : Text.lowerChars q.name ≠ [] := Text.lowerChars_ne_nil q.nonempty
  have hletters : ∀ c ∈ Text.lowerChars q.name, isLetter c :=
    Text.isLetter_of_mem_lowerAfter fun c hc ↦ (q.letters c hc).2
  have hrelease : q.qualifier.rank = Qualifier.release.rank → q.value = 0 :=
    fun hrank ↦ h (meaning_of_rank_eq hrank)
  obtain ⟨name, number, hname, hall⟩ := q
  cases number with
  | none =>
    have hscan := Components.scan_letters hne hletters
    change (Components.sublist (.scan .none (_ ++ []))).normalize = _
    rw [List.append_nil, hscan]
    exact Components.normalize_qualified rfl hrelease
  | some r =>
    have hscan := Components.scan_letters_digits hne hletters r.nonempty r.all_digits
    change (Components.sublist (.scan .none (_ ++ r.digits))).normalize = _
    rw [hscan]
    exact Components.normalize_qualified (Components.normalize_numbered _) hrelease

end Suffix

namespace ReleaseLiteral

def numbers (s : ReleaseLiteral) : List ℕ :=
  s.runs.map DigitRun.value

/-- A version without a qualifier is a release. -/
def qualifier (s : ReleaseLiteral) : Qualifier :=
  s.suffix.elim .release Suffix.qualifier

def number (s : ReleaseLiteral) : ℕ :=
  s.suffix.elim 0 Suffix.value

/-- The text behind the numbers, in lower case. -/
def lowerBack (s : ReleaseLiteral) : List Char :=
  s.suffix.elim [] fun q ↦ '-' :: (Text.lowerChars q.name ++ q.after)

theorem lowerChars_literal (s : ReleaseLiteral) :
    Text.lowerChars s.literal.toList = s.front ++ s.lowerBack := by
  have hcut : Text.StartsNeutral s.back := by
    unfold back
    cases s.suffix with
    | none => exact Text.startsNeutral_nil
    | some q => exact Text.startsNeutral_cons Text.isNeutral_hyphen _
  rw [toList_literal, Text.lowerChars, Text.lowerAfter_append hcut,
    Text.lowerAfter_of_forall_not_isLetter s.not_isLetter_of_mem_front]
  congr 1
  unfold back lowerBack
  cases s.suffix with
  | none => rfl
  | some q => exact q.lowerAfter_hyphen _

theorem normalize_lowerBack (s : ReleaseLiteral) :
    (Components.afterNumber s.lowerBack).normalize = .qualified s.qualifier s.number := by
  unfold lowerBack qualifier number
  cases hsuffix : s.suffix with
  | none => rfl
  | some q => exact q.normalize_scan (s.unnumbered q hsuffix)

theorem head?_lowerBack (s : ReleaseLiteral) : ∀ c ∈ s.lowerBack.head?, c = '-' := by
  unfold lowerBack
  cases s.suffix <;> simp

theorem components_version (s : ReleaseLiteral) :
    s.version.components = row (dropZeros s.numbers) (.qualified s.qualifier s.number) := by
  have hruns : ∀ digits ∈ s.runs.map DigitRun.digits, digits ≠ [] ∧ ∀ c ∈ digits, c.isDigit := by
    intro digits hmem
    obtain ⟨r, -, rfl⟩ := List.mem_map.1 hmem
    exact ⟨r.nonempty, r.all_digits⟩
  have hne : s.runs.map DigitRun.digits ≠ [] := fun hnil ↦ s.nonempty (List.map_eq_nil_iff.1 hnil)
  have hnumbers : (s.runs.map DigitRun.digits).map decimal = s.numbers := List.map_map
  have hscan : Components.scan .none (s.front ++ s.lowerBack) =
      row s.numbers (Components.afterNumber s.lowerBack) := by
    rw [front, Components.scan_row hne hruns s.head?_lowerBack, hnumbers]
  change (Components.scan .none (Text.lowerChars s.literal.toList)).normalize = _
  rw [lowerChars_literal, hscan, Components.normalize_row, normalize_lowerBack]
  rw [normalize_lowerBack]
  exact Components.startsClosed_qualified _ _

end ReleaseLiteral
end ArtifactIndex
