import ArtifactIndex.Coordinate.Json
import ArtifactIndex.Proofs.Range.Complement

/-!
# Ranges read back from their texts

A range is written as a text of the grammar, though results of calculations were never read. What
the text does not show is the second spelling of a pin, an interval with both ends included that
compare equal; it is written with its lower end alone. `Range.pinned` replaces the upper end of each
pin by the lower one. This changes no cut of the intervals, so the pinned range is ascending like
the range itself and holds the same versions (`Scale.mem_pinned_iff`), it is written as the same
text (`text_pinned`), and it is what this text is read as (`parse_text`, `parse_text_exact`).
-/

set_option autoImplicit false
set_option relaxedAutoImplicit false

namespace ArtifactIndex

namespace Interval

/-- The interval as its text shows it. -/
def pinned (i : Interval) : Interval :=
  if i.isPin then { i with upper := i.lower } else i

/-- The ends and brackets that are read back, with one spelling for a pin. -/
structure SameButPin (i j : Interval) : Prop where
  lower : j.lower = i.lower
  lowerIncluded : j.lowerIncluded = i.lowerIncluded
  upper : j.upper = if i.isPin then i.lower else i.upper
  upperIncluded : j.upperIncluded = i.upperIncluded

variable {i : Interval}

theorem isPin_iff : i.isPin ↔ ∃ l u, i = ⟨some l, true, some u, true⟩ ∧ l.cmp u = .eq := by
  obtain ⟨lower, lowerIncluded, upper, upperIncluded⟩ := i
  cases lower <;> cases upper <;> simp [isPin, and_assoc]

theorem pinned_of_not_isPin (h : ¬ i.isPin) : i.pinned = i :=
  if_neg h

theorem pinned_pin {l u : Version} (h : l.cmp u = .eq) :
    pinned ⟨some l, true, some u, true⟩ = ⟨some l, true, some l, true⟩ :=
  if_pos (isPin_iff.2 ⟨l, u, rfl, h⟩)

theorem sameButPin_pinned (i : Interval) : i.SameButPin i.pinned := by
  by_cases hpin : i.isPin
  · obtain ⟨l, u, rfl, hcmp⟩ := isPin_iff.1 hpin
    rw [pinned_pin hcmp]
    exact ⟨rfl, rfl, (if_pos hpin).symm, rfl⟩
  · rw [pinned_of_not_isPin hpin]
    exact ⟨rfl, rfl, (if_neg hpin).symm, rfl⟩

theorem pinned_eq_self (h : i.isPin → i.lower = i.upper) : i.pinned = i := by
  by_cases hpin : i.isPin
  · obtain ⟨l, u, rfl, hcmp⟩ := isPin_iff.1 hpin
    obtain rfl : l = u := Option.some.inj (h hpin)
    exact pinned_pin hcmp
  · exact pinned_of_not_isPin hpin

theorem text_pin {l u : Version} (h : l.cmp u = .eq) :
    text ⟨some l, true, some u, true⟩ = "[" ++ l.literal ++ "]" :=
  if_pos (isPin_iff.2 ⟨l, u, rfl, h⟩)

theorem text_pinned (i : Interval) : i.pinned.text = i.text := by
  by_cases hpin : i.isPin
  · obtain ⟨l, u, rfl, hcmp⟩ := isPin_iff.1 hpin
    rw [pinned_pin hcmp, text_pin hcmp, text_pin (Version.cmp_self l)]
  · rw [pinned_of_not_isPin hpin]

end Interval

/-! ### The text and the grammar -/

namespace Range

theorem endText_toList (e : Option Version) : EndText e (Interval.endText e).toList := by
  cases e with
  | none => exact .absent Text.isBlankRun_nil
  | some v => exact .present (Text.padded_self v.literal.toList)

theorem intervalText_pinned (i : Interval) : IntervalText i.pinned i.text.toList := by
  by_cases hpin : i.isPin
  · obtain ⟨l, u, rfl, hcmp⟩ := Interval.isPin_iff.1 hpin
    rw [Interval.pinned_pin hcmp, Interval.text_pin hcmp]
    exact ⟨l.literal.toList, .pin (Text.padded_self _), by simp [openingBracket, closingBracket]⟩
  · rw [Interval.pinned_of_not_isPin hpin, Interval.text, if_neg hpin]
    refine ⟨_, .ends (endText_toList i.lower) (endText_toList i.upper) i.lowerIncluded
      i.upperIncluded, ?_⟩
    cases i.lowerIncluded <;> cases i.upperIncluded <;> simp [openingBracket, closingBracket]

/-- Intervals joined by commas are a row in which every gap is a comma alone. -/
theorem rowText_pinned {is : List Interval} (hne : is ≠ []) :
    RowText (is.map Interval.pinned) (",".intercalate (is.map Interval.text)).toList := by
  rw [String.toList_intercalate, List.map_map]
  induction is with
  | nil => exact absurd rfl hne
  | cons i rest ih =>
    cases rest with
    | nil => simpa using RowText.last (intervalText_pinned i)
    | cons j rest =>
      have hgap : GapText [','] := .comma Text.isBlankRun_nil Text.isBlankRun_nil
      have hrow := RowText.next (intervalText_pinned i) hgap (ih (List.cons_ne_nil j rest))
      simpa [List.intercalate_cons_cons] using hrow

/-- The range as its text shows it. -/
def pinned (r : Range) : Range :=
  ⟨r.intervals.map Interval.pinned⟩

theorem text_pinned (r : Range) : r.pinned.text = r.text := by
  have htexts : r.pinned.intervals.map Interval.text = r.intervals.map Interval.text := by
    simp [pinned, Interval.text_pinned]
  rw [text, text, htexts]

theorem pinned_eq_self {r : Range} (h : ∀ i ∈ r.intervals, i.isPin → i.lower = i.upper) :
    r.pinned = r := by
  have hintervals : r.intervals.map Interval.pinned = r.intervals.map id :=
    List.map_congr_left fun i hi ↦ Interval.pinned_eq_self (h i hi)
  rw [pinned, hintervals, List.map_id]

end Range

/-! ### Pins on a scale -/

namespace Scale

variable {scale : Scale} {i : Interval}

theorem holds_pinned (hi : scale.Holds i) : scale.Holds i.pinned := by
  by_cases hpin : i.isPin
  · obtain ⟨l, u, rfl, hcmp⟩ := Interval.isPin_iff.1 hpin
    have hl : l ∈ scale := hi.lower rfl
    rw [Interval.pinned_pin hcmp]
    exact holds_mk (by simpa using hl) (by simpa using hl)
  · rwa [Interval.pinned_of_not_isPin hpin]

theorem lowerCut_pinned (i : Interval) : scale.lowerCut i.pinned = scale.lowerCut i := by
  have hsame := i.sameButPin_pinned
  unfold lowerCut
  rw [hsame.lower, hsame.lowerIncluded]

/-- The two ends of a pin have one slot. -/
theorem upperCut_pinned (hi : scale.Holds i) : scale.upperCut i.pinned = scale.upperCut i := by
  by_cases hpin : i.isPin
  · obtain ⟨l, u, rfl, hcmp⟩ := Interval.isPin_iff.1 hpin
    have hslot : scale.slot l = scale.slot u := by
      rw [cmp_eq_compare_slot (hi.lower rfl) (hi.upper rfl)] at hcmp
      exact Nat.compare_eq_eq.1 hcmp
    rw [Interval.pinned_pin hcmp]
    simp only [upperCut, hslot]
  · rw [Interval.pinned_of_not_isPin hpin]

theorem isOrdered_pinned (hi : scale.Holds i) (hordered : i.isOrdered) : i.pinned.isOrdered := by
  rw [isOrdered_iff (holds_pinned hi), lowerCut_pinned, upperCut_pinned hi]
  exact (isOrdered_iff hi).1 hordered

theorem precedes_pinned {j : Interval} (hi : scale.Holds i) (hj : scale.Holds j)
    (hij : i.precedes j) : i.pinned.precedes j.pinned := by
  rw [precedes_iff (holds_pinned hi) (holds_pinned hj), lowerCut_pinned, upperCut_pinned hi]
  exact (precedes_iff hi hj).1 hij

theorem mem_pinned_iff {r : Range} (hr : scale.Spans r) {v : Version} (hv : v ∈ scale) :
    v ∈ r.pinned ↔ v ∈ r := by
  have hinterval : ∀ i ∈ r.intervals, (v ∈ i.pinned ↔ v ∈ i) := by
    intro i hi
    rw [mem_iff_cut (holds_pinned (hr.holds hi)) hv, mem_iff_cut (hr.holds hi) hv,
      lowerCut_pinned, upperCut_pinned (hr.holds hi)]
  rw [Range.mem_iff, Range.mem_iff]
  constructor
  · rintro ⟨_, hj, hv⟩
    obtain ⟨i, hi, rfl⟩ := List.mem_map.1 hj
    exact ⟨i, hi, (hinterval i hi).1 hv⟩
  · rintro ⟨i, hi, hv⟩
    exact ⟨i.pinned, List.mem_map_of_mem hi, (hinterval i hi).2 hv⟩

/-- The text of a separated range is read, as the pinned range. -/
theorem parse_text {r : Range} (hr : scale.Spans r) (hsep : r.Separated)
    (hne : r.intervals ≠ []) : Range.parse r.text = .ok r.pinned := by
  have hordered : ∀ i ∈ r.pinned.intervals, i.isOrdered :=
    List.forall_mem_map.2 fun i hi ↦ isOrdered_pinned (hr.holds hi) (hsep.ordered i hi)
  have hascending : r.pinned.intervals.Pairwise fun i j ↦ i.precedes j := by
    refine List.pairwise_map.2 (hsep.ascending.imp_of_mem ?_)
    exact fun hi hj hij ↦ precedes_pinned (hr.holds hi) (hr.holds hj) hij
  rw [Range.parse_eq_ok_iff]
  exact Range.readChars_of_rowText (Range.rowText_pinned hne) (Text.padded_self _) hordered
    hascending.isChain

end Scale

namespace Range

/-- However a range with an interval was built, its text and its document are read, as a range that
is the same but for the second spelling of pins, has the same text and holds the same versions. -/
theorem parse_text_exact {versions : List Version} {r : Range} (hbuilt : BuiltFrom versions r)
    (htotal : TotalPreorderOn Version.cmp (· ∈ .zero :: versions)) (hne : r.intervals ≠ []) :
    ∃ r' : Range, parse r.text = .ok r' ∧ ofJson? r.toJson = some r' ∧
      List.Forall₂ Interval.SameButPin r.intervals r'.intervals ∧ r'.text = r.text ∧
      ((∀ i ∈ r.intervals, i.isPin → i.lower = i.upper) → r' = r) ∧
      ∀ v, TotalPreorderOn Version.cmp (· ∈ v :: r.bounds) → (v ∈ r' ↔ v ∈ r) := by
  have hzero : .zero ∈ Scale.mk _ htotal := List.mem_cons_self
  obtain ⟨hr, hsep⟩ := Scale.separated_of_builtFrom hbuilt hzero
    fun v hv ↦ List.mem_cons_of_mem _ hv
  have hparse : parse r.text = .ok r.pinned := Scale.parse_text hr hsep hne
  have hjson : ofJson? r.toJson = some r.pinned := by
    rw [toJson, ofJson?, Json.text?_ofString, Option.bind_some, hparse]
    rfl
  have hsame : List.Forall₂ Interval.SameButPin r.intervals r.pinned.intervals :=
    List.forall₂_map_right_iff.2 (List.forall₂_same.2 fun i _ ↦ i.sameButPin_pinned)
  refine ⟨r.pinned, hparse, hjson, hsame, r.text_pinned, pinned_eq_self, ?_⟩
  intro v hv
  have hspans : (Scale.mk _ hv).Spans r := fun w hw ↦ List.mem_cons_of_mem v hw
  exact Scale.mem_pinned_iff hspans List.mem_cons_self

/-- All up to `1.0`, written in this way, and from `4` on. -/
def outerParts : Range :=
  ⟨[⟨none, false, some ⟨"1.0", by decide +kernel⟩, true⟩,
    ⟨some ⟨"4", by decide +kernel⟩, true, none, false⟩]⟩

/-- The first interval of the intersection is a pin with the ends `1` and `1.0`. -/
theorem parse_text_exact_spellings :
    BuiltFrom (oneOrThree.bounds ++ outerParts.bounds) (oneOrThree.inter outerParts) ∧
      (oneOrThree.inter outerParts).text = "[1],[4,)" ∧
      ∃ r', parse (oneOrThree.inter outerParts).text = .ok r' ∧
        r'.text = (oneOrThree.inter outerParts).text ∧
        (two ∈ r' ↔ two ∈ oneOrThree.inter outerParts) := by
  have hone : Range.parse "[1,2),[3,)" = .ok oneOrThree := by decide +kernel
  have houter : Range.parse "(,1.0],[4,)" = .ok outerParts := by decide +kernel
  have hbuilt : BuiltFrom (oneOrThree.bounds ++ outerParts.bounds)
      (oneOrThree.inter outerParts) := .inter (.parse hone) (.parse houter)
  obtain ⟨r', hparse, -, -, htext, -, hmem⟩ :=
    parse_text_exact hbuilt (by decide +kernel) (by decide +kernel)
  exact ⟨hbuilt, by decide +kernel, r', hparse, htext, hmem two (by decide +kernel)⟩

end Range
end ArtifactIndex
