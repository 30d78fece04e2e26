import ArtifactIndex.Proofs.Version.Reading
import ArtifactIndex.Range.Reader

/-!
# The grammar of ranges

How ranges are written, apart from how they are read. `BodyText`, `IntervalText` and `RowText` say
which texts stand for an end or two, an interval and a row of intervals, and `Range.WrittenAs` adds
what the grammar alone cannot: room in every interval and an ascending row. White space may stand
around versions, between intervals and around the whole.

The first half of the comparison with the reader is here: an end is read exactly from the texts of
an end (`readEnd_eq_ok_iff`), and what stands between two brackets exactly when it is the body of an
interval with room (`of_readInterval`, `readInterval_of_bodyText`).
-/

set_option autoImplicit false
set_option relaxedAutoImplicit false

namespace ArtifactIndex

open Text (IsBlankRun Padded isBlank trimChars)

/-! ### The grammar -/

namespace Interval

/-- Of two ends that are both there the lower one is below the upper one, or they are equal and both
belong to the interval. -/
def HasRoom (i : Interval) : Prop :=
  ∀ l u, i.lower = some l → i.upper = some u →
    l.cmp u = .lt ∨ (l.cmp u = .eq ∧ i.lowerIncluded ∧ i.upperIncluded)

/-- The upper end is below the lower end of the next interval, or equal to it and not in both. -/
def EndsBefore (i next : Interval) : Prop :=
  ∃ u l, i.upper = some u ∧ next.lower = some l ∧
    (u.cmp l = .lt ∨ (u.cmp l = .eq ∧ ¬ (i.upperIncluded ∧ next.lowerIncluded)))

theorem isOrdered_iff_hasRoom {i : Interval} : i.isOrdered ↔ i.HasRoom := by
  unfold isOrdered HasRoom
  cases hl : i.lower with
  | none => simp
  | some l =>
    cases hu : i.upper with
    | none => simp
    | some u => cases hcmp : l.cmp u <;> simp [hcmp]

theorem precedes_iff_endsBefore {i next : Interval} : i.precedes next ↔ i.EndsBefore next := by
  unfold precedes EndsBefore
  cases hu : i.upper with
  | none => simp
  | some u =>
    cases hl : next.lower with
    | none => simp
    | some l =>
      have hswap : (l.cmp u).swap = u.cmp l := Version.cmp_swap l u
      cases hcmp : l.cmp u <;> cases i.upperIncluded <;> simp [hcmp, ← hswap]

end Interval

namespace Range

/-- A version with white space around it, or white space alone for an end that is missing. -/
inductive EndText : Option Version → List Char → Prop where
  | absent {cs : List Char} (h : IsBlankRun cs) : EndText none cs
  | present {v : Version} {cs : List Char} (h : Padded v.literal.toList cs) : EndText (some v) cs

/-- What stands between the brackets: one version for both ends, or two ends and a comma. -/
inductive BodyText : Interval → List Char → Prop where
  | pin {v : Version} {cs : List Char} (h : Padded v.literal.toList cs) :
    BodyText ⟨some v, true, some v, true⟩ cs
  | ends {lower upper : Option Version} {low high : List Char} (hlower : EndText lower low)
    (hupper : EndText upper high) (lowerIncluded upperIncluded : Bool) :
    BodyText ⟨lower, lowerIncluded, upper, upperIncluded⟩ (low ++ ',' :: high)

def openingBracket (included : Bool) : Char :=
  if included then '[' else '('

def closingBracket (included : Bool) : Char :=
  if included then ']' else ')'

/-- A square bracket stands at an end that belongs to the interval. -/
def IntervalText (i : Interval) (cs : List Char) : Prop :=
  ∃ body, BodyText i body ∧
    cs = openingBracket i.lowerIncluded :: (body ++ [closingBracket i.upperIncluded])

/-- White space with at most one comma in it. -/
inductive GapText : List Char → Prop where
  | blank {cs : List Char} (h : IsBlankRun cs) : GapText cs
  | comma {before after : List Char} (hbefore : IsBlankRun before) (hafter : IsBlankRun after) :
    GapText (before ++ ',' :: after)

/-- One interval or more, with a gap between neighbours and nothing after the last. -/
inductive RowText : List Interval → List Char → Prop where
  | last {i : Interval} {cs : List Char} (h : IntervalText i cs) : RowText [i] cs
  | next {i : Interval} {is : List Interval} {cs gap rest : List Char} (h : IntervalText i cs)
    (hgap : GapText gap) (hrest : RowText is rest) : RowText (i :: is) (cs ++ (gap ++ rest))

/-- The text is a row of the intervals of the range, with white space around it; each interval has
room and ends before the next one starts. -/
structure WrittenAs (r : Range) (s : String) : Prop where
  row : ∃ cs, RowText r.intervals cs ∧ Padded cs s.toList
  room : ∀ i ∈ r.intervals, i.HasRoom
  ascending : r.intervals.IsChain Interval.EndsBefore

end Range

/-! ### Splitting at a comma -/

namespace Text

variable {sep : Char} {cs before rest : List Char}

theorem splitOnce_of_not_mem (h : sep ∉ cs) : splitOnce sep cs = none := by
  induction cs with
  | nil => rfl
  | cons c cs ih =>
    obtain ⟨hne, hrest⟩ := List.ne_and_not_mem_of_not_mem_cons h
    rw [splitOnce, if_neg (Ne.symm hne), ih hrest]
    rfl

theorem splitOnce_append (h : sep ∉ before) :
    splitOnce sep (before ++ sep :: rest) = some (before, rest) := by
  induction before with
  | nil => simp [splitOnce]
  | cons c before ih =>
    obtain ⟨hne, hbefore⟩ := List.ne_and_not_mem_of_not_mem_cons h
    rw [List.cons_append, splitOnce, if_neg (Ne.symm hne), ih hbefore]
    rfl

theorem eq_append_of_splitOnce (h : splitOnce sep cs = some (before, rest)) :
    cs = before ++ sep :: rest := by
  induction cs generalizing before with
  | nil => simp [splitOnce] at h
  | cons c cs ih =>
    rw [splitOnce] at h
    split_ifs at h with hc
    · obtain ⟨rfl, rfl⟩ : [] = before ∧ cs = rest := by simpa using h
      rw [hc, List.nil_append]
    · obtain ⟨⟨front, back⟩, hsplit, heq⟩ := Option.map_eq_some_iff.1 h
      obtain ⟨rfl, rfl⟩ : c :: front = before ∧ back = rest := by simpa using heq
      rw [List.cons_append, ← ih hsplit]

end Text

namespace Range

/-! ### Ends -/

theorem readVersion_eq_ok_iff {cs : List Char} {v : Version} :
    readVersion cs = .ok v ↔ Padded v.literal.toList cs := by
  have hparse : Version.parse (String.ofList cs) = .ok v ↔ Padded v.literal.toList cs := by
    simpa using Version.parse_eq_ok_iff (s := String.ofList cs) (v := v)
  rw [← hparse, readVersion]
  cases Version.parse (String.ofList cs) <;> simp [Except.mapError]

variable {e lower upper : Option Version} {cs low high : List Char}

theorem endText_iff : EndText e cs ↔ trimChars cs = (Interval.endText e).toList := by
  cases e with
  | none =>
    have hnil : trimChars cs = [] ↔ Padded [] cs := Text.trimChars_eq_iff rfl
    rw [Interval.endText, String.toList_empty, hnil]
    constructor
    · rintro ⟨h⟩
      exact ⟨cs, [], h, Text.isBlankRun_nil, by simp⟩
    · rintro ⟨before, after, hbefore, hafter, rfl⟩
      exact .absent (hbefore.append hafter)
  | some v =>
    rw [Interval.endText, Text.trimChars_eq_iff v.trimChars_literal]
    constructor
    · intro h
      cases h with
      | present hpadded => exact hpadded
    · exact .present

theorem readEnd_eq_ok_iff : readEnd cs = .ok e ↔ EndText e cs := by
  rw [endText_iff, readEnd]
  cases hcs : trimChars cs with
  | nil =>
    cases e with
    | none => simp [Interval.endText]
    | some v => simpa [Interval.endText] using v.toList_literal_ne_nil
  | cons c rest =>
    have htrimmed : trimChars (c :: rest) = c :: rest := hcs ▸ Text.trimChars_trimChars cs
    cases e with
    | none =>
      simp only [Interval.endText]
      cases readVersion (c :: rest) <;> simp [Except.map]
    | some v =>
      have hread : readVersion (c :: rest) = .ok v ↔ c :: rest = v.literal.toList := by
        rw [readVersion_eq_ok_iff, ← Text.trimChars_eq_iff v.trimChars_literal, htrimmed]
      simp only [Interval.endText]
      rw [← hread]
      cases readVersion (c :: rest) <;> simp [Except.map]

theorem EndText.append_left {before : List Char} (hbefore : IsBlankRun before) (h : EndText e cs) :
    EndText e (before ++ cs) := by
  rw [endText_iff] at h ⊢
  rw [Text.trimChars_append_left hbefore, h]

theorem EndText.append_right {after : List Char} (h : EndText e cs) (hafter : IsBlankRun after) :
    EndText e (cs ++ after) := by
  rw [endText_iff] at h ⊢
  rw [Text.trimChars_append_right hafter, h]

theorem EndText.trimStart (h : EndText e cs) : EndText e (Text.trimStart cs) := by
  rw [endText_iff] at h ⊢
  rw [Text.trimChars_trimStart, h]

theorem EndText.trimEnd (h : EndText e cs) : EndText e (Text.trimEnd cs) := by
  rw [endText_iff] at h ⊢
  rw [Text.trimChars_trimEnd, h]

/-- The text of an end holds no punctuation. -/
theorem EndText.isBlank_or_admits (h : EndText e cs) : ∀ c ∈ cs, isBlank c ∨ Version.admits c := by
  intro c hc
  cases h with
  | absent hblank => exact .inl (hblank c hc)
  | @present v _ hpadded =>
    obtain ⟨before, after, hbefore, hafter, rfl⟩ := hpadded
    rcases List.mem_append.1 hc with hc | hc
    · exact .inl (hbefore c hc)
    · rcases List.mem_append.1 hc with hc | hc
      · exact .inr ((Version.isLegal_iff.1 v.legal).2 c hc)
      · exact .inl (hafter c hc)

theorem EndText.comma_not_mem (h : EndText e cs) : ',' ∉ cs := fun hc ↦
  absurd (h.isBlank_or_admits ',' hc) (by decide)

/-! ### What stands between the brackets -/

theorem checkEnds_eq_ok_iff {i j : Interval} : checkEnds i = .ok j ↔ j = i ∧ i.isOrdered := by
  unfold checkEnds Interval.isOrdered
  cases hl : i.lower with
  | none => simp [eq_comm]
  | some l =>
    cases hu : i.upper with
    | none => simp [eq_comm]
    | some u =>
      have hswap : (u.cmp l).swap = l.cmp u := Version.cmp_swap u l
      cases hcmp : u.cmp l <;> cases i.lowerIncluded <;> cases i.upperIncluded <;>
        simp [hcmp, ← hswap, eq_comm]

theorem ok_of_map_eq_ok {ε α β : Type} {f : α → β} {x : Except ε α} {b : β}
    (h : x.map f = .ok b) : ∃ a, x = .ok a ∧ f a = b := by
  cases x with
  | error e => exact absurd h (by simp [Except.map])
  | ok a => exact ⟨a, rfl, Except.ok.inj h⟩

theorem pin_isOrdered (v : Version) : (Interval.mk (some v) true (some v) true).isOrdered := by
  simp [Interval.isOrdered, v.cmp_self]

variable {i : Interval} {body : List Char}

/-- What was read is the body of an interval with room, with the brackets that were seen. -/
theorem of_readInterval {lowerIncluded upperIncluded : Bool}
    (h : readInterval lowerIncluded upperIncluded body = .ok i) :
    BodyText i body ∧ i.isOrdered ∧ i.lowerIncluded = lowerIncluded ∧
      i.upperIncluded = upperIncluded := by
  obtain ⟨before, after, hbefore, hafter, hbody⟩ := Text.padded_trimChars body
  unfold readInterval at h
  simp only at h
  cases hsplit : Text.splitOnce ',' (trimChars body) with
  | none =>
    simp only [hsplit] at h
    split_ifs at h with hincluded
    obtain ⟨v, hv, rfl⟩ := ok_of_map_eq_ok h
    rw [Bool.and_eq_true] at hincluded
    have hpadded : Padded v.literal.toList body := by
      rw [hbody]
      exact ((readVersion_eq_ok_iff.1 hv).append_right hafter).append_left hbefore
    exact ⟨.pin hpadded, pin_isOrdered v, hincluded.1.symm, hincluded.2.symm⟩
  | some ends =>
    obtain ⟨low, high⟩ := ends
    simp only [hsplit] at h
    split_ifs at h
    cases hlow : readEnd low with
    | error fault => simp [hlow, bind, Except.bind] at h
    | ok lower =>
      cases hhigh : readEnd high with
      | error fault => simp [hlow, hhigh, bind, Except.bind] at h
      | ok upper =>
        rw [hlow, hhigh] at h
        obtain ⟨rfl, hordered⟩ := checkEnds_eq_ok_iff.1 h
        refine ⟨?_, hordered, rfl, rfl⟩
        rw [hbody, Text.eq_append_of_splitOnce hsplit]
        have hpadded := BodyText.ends ((readEnd_eq_ok_iff.1 hlow).append_left hbefore)
          ((readEnd_eq_ok_iff.1 hhigh).append_right hafter) lowerIncluded upperIncluded
        simpa using hpadded

/-- Every body of an interval with room is read as that interval. -/
theorem readInterval_of_bodyText (h : BodyText i body) (hordered : i.isOrdered) :
    readInterval i.lowerIncluded i.upperIncluded body = .ok i := by
  unfold readInterval
  cases h with
  | @pin v _ hpadded =>
    have htrim : trimChars body = v.literal.toList :=
      (Text.trimChars_eq_iff v.trimChars_literal).2 hpadded
    have hcomma : ',' ∉ v.literal.toList :=
      (EndText.present (Text.padded_self v.literal.toList)).comma_not_mem
    simp only [htrim, Text.splitOnce_of_not_mem hcomma, Bool.and_self, if_true]
    rw [readVersion_eq_ok_iff.2 (Text.padded_self v.literal.toList)]
    rfl
  | @ends lower upper low high hlower hupper lowerIncluded upperIncluded =>
    have hlow : EndText lower (Text.trimStart low) := hlower.trimStart
    have hhigh : EndText upper (Text.trimEnd high) := hupper.trimEnd
    have htrim : trimChars (low ++ ',' :: high) =
        Text.trimStart low ++ ',' :: Text.trimEnd high :=
      Text.trimChars_append_cons (by decide) low high
    have hcomma : (Text.trimEnd high).contains ',' = false := by
      simpa using hhigh.comma_not_mem
    simp only [htrim, Text.splitOnce_append hlow.comma_not_mem, hcomma, Bool.false_eq_true,
      if_false]
    rw [readEnd_eq_ok_iff.2 hlow, readEnd_eq_ok_iff.2 hhigh]
    exact checkEnds_eq_ok_iff.2 ⟨rfl, hordered⟩

end Range
end ArtifactIndex
