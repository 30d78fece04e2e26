import Mathlib.Data.List.Chain
import ArtifactIndex.Proofs.Range.Grammar

/-!
# What the reader of ranges accepts

The second half of the comparison with the grammar: rows. The reader goes forward only and keeps the
interval before its place, so that a row is taken apart into stretches, each of them inside an
interval (`of_readRow_inside`) or in the gap behind one (`of_readRow_behind`). From these come both
directions, for a row from any interval on: what the reader accepts is a row of the grammar in
ascending order (`rowText_of_readRow`), and it accepts all of them (`readRow_of_rowText`). So a text
is read as the range that it stands for, and as nothing else (`parse_exact`).
-/

set_option autoImplicit false
set_option relaxedAutoImplicit false

namespace ArtifactIndex.Range

open Text (IsBlankRun Padded isBlank trimChars)

variable {i p : Interval} {is : List Interval} {previous : Option Interval}
  {included comma : Bool} {cs body gap row rest reversed : List Char}

/-! ### Brackets -/

theorem isOpening_iff {c : Char} : isOpening c ↔ c = openingBracket (c == '[') := by
  by_cases h : c = '['
  · simp [isOpening, openingBracket, h]
  · simp [isOpening, openingBracket, h]

theorem isClosing_iff {c : Char} : isClosing c ↔ c = closingBracket (c == ']') := by
  by_cases h : c = ']'
  · simp [isClosing, closingBracket, h]
  · simp [isClosing, closingBracket, h]

@[simp]
theorem openingBracket_beq (included : Bool) : (openingBracket included == '[') = included := by
  cases included <;> rfl

@[simp]
theorem closingBracket_beq (included : Bool) : (closingBracket included == ']') = included := by
  cases included <;> rfl

@[simp]
theorem isOpening_openingBracket (included : Bool) : isOpening (openingBracket included) := by
  cases included <;> rfl

@[simp]
theorem isClosing_closingBracket (included : Bool) : isClosing (closingBracket included) := by
  cases included <;> rfl

theorem not_isBlank_openingBracket (included : Bool) : ¬ isBlank (openingBracket included) := by
  cases included <;> decide

theorem not_isBlank_closingBracket (included : Bool) : ¬ isBlank (closingBracket included) := by
  cases included <;> decide

/-- Neither white space nor what versions are written with closes an interval. -/
theorem not_isClosing_of_isBlank_or_admits {c : Char} (h : isBlank c ∨ Version.admits c) :
    ¬ isClosing c := by
  intro hclosing
  rw [isClosing_iff] at hclosing
  rw [hclosing] at h
  revert h
  cases c == ']' <;> decide

theorem BodyText.not_isClosing (h : BodyText i body) : ∀ c ∈ body, ¬ isClosing c := by
  intro c hc
  cases h with
  | pin hpadded =>
    exact not_isClosing_of_isBlank_or_admits ((EndText.present hpadded).isBlank_or_admits c hc)
  | ends hlower hupper lowerIncluded upperIncluded =>
    rcases List.mem_append.1 hc with hc | hc
    · exact not_isClosing_of_isBlank_or_admits (hlower.isBlank_or_admits c hc)
    · rcases List.mem_cons.1 hc with rfl | hc
      · decide
      · exact not_isClosing_of_isBlank_or_admits (hupper.isBlank_or_admits c hc)

/-! ### Inside an interval -/

theorem readRow_inside_append (hbody : ∀ c ∈ body, ¬ isClosing c) :
    readRow (.inside previous included reversed) (body ++ rest) =
      readRow (.inside previous included (body.reverse ++ reversed)) rest := by
  induction body generalizing reversed with
  | nil => rfl
  | cons c body ih =>
    obtain ⟨hc, hbody⟩ := List.forall_mem_cons.1 hbody
    rw [List.cons_append, readRow, if_neg hc, ih hbody]
    simp

/-- One interval is read up to its closing bracket, and the row goes on behind it. -/
theorem readRow_intervalText (h : BodyText i body) (hordered : i.isOrdered)
    (hfollows : follows previous i) :
    readRow (.inside previous i.lowerIncluded [])
        (body ++ closingBracket i.upperIncluded :: rest) =
      (readRow (.behind i false) rest).map (i :: ·) := by
  rw [readRow_inside_append h.not_isClosing, List.append_nil, readRow,
    if_pos (isClosing_closingBracket _), closingBracket_beq, List.reverse_reverse,
    readInterval_of_bodyText h hordered]
  exact if_pos hfollows

/-- A row that is accepted inside an interval closes this interval first. -/
theorem of_readRow_inside (h : readRow (.inside previous included reversed) cs = .ok is) :
    ∃ i body rest is', is = i :: is' ∧ cs = body ++ closingBracket i.upperIncluded :: rest ∧
      BodyText i (reversed.reverse ++ body) ∧ i.isOrdered ∧ i.lowerIncluded = included ∧
      follows previous i ∧ readRow (.behind i false) rest = .ok is' := by
  induction cs generalizing reversed with
  | nil => exact absurd h (by simp [readRow])
  | cons c cs ih =>
    rw [readRow] at h
    by_cases hclosing : isClosing c
    · rw [if_pos hclosing] at h
      cases hread : readInterval included (c == ']') reversed.reverse with
      | error fault => simp [hread] at h
      | ok i =>
        simp only [hread] at h
        split_ifs at h with hfollows
        obtain ⟨is', hrest, rfl⟩ := ok_of_map_eq_ok h
        obtain ⟨hbody, hordered, hlower, hupper⟩ := of_readInterval hread
        refine ⟨i, [], cs, is', rfl, ?_, by simpa using hbody, hordered, hlower, hfollows, hrest⟩
        rw [hupper, ← isClosing_iff.1 hclosing, List.nil_append]
    · rw [if_neg hclosing] at h
      obtain ⟨i, body, rest, is', his, hcs, hbody, hread⟩ := ih h
      exact ⟨i, c :: body, rest, is', his, by rw [hcs, List.cons_append], by simpa using hbody,
        hread⟩

/-! ### Behind an interval -/

/-- What may still come before the next interval: behind a comma no other one. -/
def GapAfter (comma : Bool) (gap : List Char) : Prop :=
  if comma then IsBlankRun gap else GapText gap

theorem GapAfter.nil (comma : Bool) : GapAfter comma [] := by
  cases comma
  · exact .blank Text.isBlankRun_nil
  · exact Text.isBlankRun_nil

theorem GapAfter.cons_blank {c : Char} (hc : isBlank c) (h : GapAfter comma gap) :
    GapAfter comma (c :: gap) := by
  cases comma with
  | true => exact List.forall_mem_cons.2 ⟨hc, h⟩
  | false =>
    cases h with
    | blank hblank => exact .blank (List.forall_mem_cons.2 ⟨hc, hblank⟩)
    | comma hbefore hafter => exact .comma (List.forall_mem_cons.2 ⟨hc, hbefore⟩) hafter

theorem readRow_blank (hgap : IsBlankRun gap) :
    readRow (.behind p comma) (gap ++ rest) = readRow (.behind p comma) rest := by
  induction gap with
  | nil => rfl
  | cons c gap ih =>
    obtain ⟨hc, hgap⟩ := List.forall_mem_cons.1 hgap
    rw [List.cons_append, readRow, if_pos hc, ih hgap]

theorem readRow_openingBracket :
    readRow (.behind p comma) (openingBracket included :: rest) =
      readRow (.inside (some p) included []) rest := by
  rw [readRow, if_neg (not_isBlank_openingBracket _), if_pos (isOpening_openingBracket _),
    openingBracket_beq]

theorem readRow_gapText (hgap : GapText gap) :
    readRow (.behind p false) (gap ++ openingBracket included :: rest) =
      readRow (.inside (some p) included []) rest := by
  cases hgap with
  | blank h => rw [readRow_blank h, readRow_openingBracket]
  | @comma before after hbefore hafter =>
    have hcomma : readRow (.behind p false) (',' :: (after ++ openingBracket included :: rest)) =
        readRow (.behind p true) (after ++ openingBracket included :: rest) := by
      rw [readRow]
      rfl
    rw [List.append_assoc, List.cons_append, readRow_blank hbefore, hcomma, readRow_blank hafter,
      readRow_openingBracket]

/-- Behind an interval the text ends, or the next interval opens after a gap. -/
theorem of_readRow_behind (h : readRow (.behind p comma) cs = .ok is) :
    (is = [] ∧ comma = false ∧ IsBlankRun cs) ∨
      ∃ gap included rest, cs = gap ++ openingBracket included :: rest ∧ GapAfter comma gap ∧
        readRow (.inside (some p) included []) rest = .ok is := by
  induction cs generalizing comma with
  | nil =>
    cases comma with
    | true => exact absurd h (by simp [readRow])
    | false => exact .inl ⟨by simpa [readRow, eq_comm] using h, rfl, Text.isBlankRun_nil⟩
  | cons c cs ih =>
    rw [readRow] at h
    split_ifs at h with hblank hopening hcomma hsep
    · rcases ih h with ⟨his, hnone, hcs⟩ | ⟨gap, included, rest, hcs, hgap, hread⟩
      · exact .inl ⟨his, hnone, List.forall_mem_cons.2 ⟨hblank, hcs⟩⟩
      · exact .inr ⟨c :: gap, included, rest, by rw [hcs, List.cons_append],
          hgap.cons_blank hblank, hread⟩
    · exact .inr ⟨[], c == '[', cs, by rw [← isOpening_iff.1 hopening, List.nil_append],
        .nil comma, h⟩
    · obtain rfl : c = ',' := by simpa using hsep
      obtain rfl : comma = false := by simpa using hcomma
      rcases ih h with ⟨-, hnone, -⟩ | ⟨gap, included, rest, hcs, hgap, hread⟩
      · exact absurd hnone (by simp)
      · exact .inr ⟨',' :: gap, included, rest, by rw [hcs, List.cons_append],
          GapText.comma Text.isBlankRun_nil hgap, hread⟩

/-! ### Rows -/

theorem isChain_of_follows (hfollows : follows previous i)
    (hrest : (i :: is).IsChain fun i j ↦ i.precedes j) :
    (previous.toList ++ i :: is).IsChain fun i j ↦ i.precedes j := by
  cases previous with
  | none => exact hrest
  | some p => exact List.isChain_cons_cons.2 ⟨hfollows, hrest⟩

theorem follows_of_isChain (h : (previous.toList ++ i :: is).IsChain fun i j ↦ i.precedes j) :
    follows previous i ∧ ((some i).toList ++ is).IsChain fun i j ↦ i.precedes j := by
  cases previous with
  | none => exact ⟨rfl, h⟩
  | some p => exact List.isChain_cons_cons.1 h

theorem IntervalText.of_bodyText (h : BodyText i body) :
    IntervalText i (openingBracket i.lowerIncluded ::
      (body ++ [closingBracket i.upperIncluded])) :=
  ⟨body, h, rfl⟩

/-- What is accepted is a row with nothing but white space behind it. The induction is on the row,
because each interval is followed by a gap and the rest of the row. -/
theorem rowText_of_readRow (h : readRow (.inside previous included []) cs = .ok is) :
    (∃ row after, openingBracket included :: cs = row ++ after ∧ IsBlankRun after ∧
        RowText is row) ∧
      (∀ i ∈ is, i.isOrdered) ∧ (previous.toList ++ is).IsChain fun i j ↦ i.precedes j := by
  induction is generalizing previous included cs with
  | nil =>
    obtain ⟨i, body, rest, is, his, -⟩ := of_readRow_inside h
    exact absurd his (by simp)
  | cons i is ih =>
    obtain ⟨_, body, rest, _, his, rfl, hbody, hordered, rfl, hfollows, hread⟩ :=
      of_readRow_inside h
    obtain ⟨rfl, rfl⟩ := List.cons.inj his
    have hinterval := IntervalText.of_bodyText hbody
    rcases of_readRow_behind hread with ⟨rfl, -, hblank⟩ | ⟨gap, included, rest, rfl, hgap, hnext⟩
    · refine ⟨⟨_, rest, ?_, hblank, .last hinterval⟩, by simpa using hordered,
        isChain_of_follows hfollows (.singleton i)⟩
      simp
    · obtain ⟨⟨row, after, hrow, hblank, hrowText⟩, hrestOrdered, hchain⟩ := ih hnext
      refine ⟨⟨_, after, ?_, hblank, .next hinterval hgap hrowText⟩,
        List.forall_mem_cons.2 ⟨hordered, hrestOrdered⟩, isChain_of_follows hfollows hchain⟩
      simp [hrow]

/-- Every row in ascending order is accepted. -/
theorem readRow_of_rowText (h : RowText is row) (hordered : ∀ i ∈ is, i.isOrdered)
    (hchain : (previous.toList ++ is).IsChain fun i j ↦ i.precedes j) :
    ∃ included cs, row = openingBracket included :: cs ∧
      readRow (.inside previous included []) cs = .ok is := by
  induction h generalizing previous with
  | @last i cs hinterval =>
    obtain ⟨body, hbody, rfl⟩ := hinterval
    refine ⟨i.lowerIncluded, _, rfl, ?_⟩
    rw [readRow_intervalText hbody (hordered i (by simp)) (follows_of_isChain hchain).1]
    rfl
  | @next i is cs gap rest hinterval hgap hrest ih =>
    obtain ⟨body, hbody, rfl⟩ := hinterval
    obtain ⟨hfollows, hnextChain⟩ := follows_of_isChain hchain
    obtain ⟨hi, hrestOrdered⟩ := List.forall_mem_cons.1 hordered
    obtain ⟨included, tail, rfl, hread⟩ := ih hrestOrdered hnextChain
    refine ⟨i.lowerIncluded, body ++ closingBracket i.upperIncluded ::
      (gap ++ openingBracket included :: tail), by simp, ?_⟩
    rw [readRow_intervalText hbody hi hfollows, readRow_gapText hgap, hread]
    rfl

/-- A row ends with a closing bracket. -/
theorem RowText.exists_closingBracket (h : RowText is row) :
    ∃ front included, row = front ++ [closingBracket included] := by
  induction h with
  | @last i cs hinterval =>
    obtain ⟨body, -, rfl⟩ := hinterval
    exact ⟨openingBracket i.lowerIncluded :: body, i.upperIncluded, rfl⟩
  | @next i is cs gap rest hinterval hgap hrest ih =>
    obtain ⟨front, included, rfl⟩ := ih
    exact ⟨cs ++ (gap ++ front), included, by simp⟩

/-! ### Whole texts -/

variable {r : Range} {s : String}

theorem parse_eq_ok_iff : parse s = .ok r ↔ readChars s.toList = .ok r.intervals := by
  unfold parse
  cases hread : readChars s.toList with
  | error fault => simp
  | ok is => cases r; simp

theorem readChars_openingBracket (h : trimChars cs = openingBracket included :: rest) :
    readChars cs = readRow (.inside none included []) rest := by
  simp only [readChars, h, isOpening_openingBracket, if_true, openingBracket_beq]

theorem rowText_of_readChars (h : readChars cs = .ok is) :
    (∃ row, RowText is row ∧ Padded row cs) ∧
      (∀ i ∈ is, i.isOrdered) ∧ is.IsChain fun i j ↦ i.precedes j := by
  obtain ⟨before, behind, hbefore, hbehind, hcs⟩ := Text.padded_trimChars cs
  unfold readChars at h
  split at h
  · exact absurd h (by simp)
  · next c rest htrim =>
    split_ifs at h with hopening
    obtain ⟨⟨row, after, hrow, hafter, hrowText⟩, hordered, hchain⟩ := rowText_of_readRow h
    rw [← isOpening_iff.1 hopening, ← htrim] at hrow
    refine ⟨⟨row, hrowText, before, after ++ behind, hbefore, hafter.append hbehind, ?_⟩,
      hordered, hchain⟩
    rw [hcs, hrow, List.append_assoc]

/-- Trimming stops at the outer brackets of a row. -/
theorem readChars_of_rowText (h : RowText is row) (hpadded : Padded row cs)
    (hordered : ∀ i ∈ is, i.isOrdered) (hchain : is.IsChain fun i j ↦ i.precedes j) :
    readChars cs = .ok is := by
  obtain ⟨front, closed, hclosing⟩ := h.exists_closingBracket
  have hstart : ((none : Option Interval).toList ++ is).IsChain fun i j ↦ i.precedes j := hchain
  obtain ⟨included, rest, hopening, hread⟩ := readRow_of_rowText h hordered hstart
  have hrow : trimChars row = row := by
    apply Text.trimChars_eq_self
    · simpa [hopening] using not_isBlank_openingBracket included
    · simpa [hclosing] using not_isBlank_closingBracket closed
  have htrim : trimChars cs = openingBracket included :: rest :=
    hpadded.trimChars_eq.trans (hrow.trans hopening)
  rw [readChars_openingBracket htrim, hread]

theorem isChain_endsBefore_iff :
    is.IsChain Interval.EndsBefore ↔ is.IsChain fun i j ↦ i.precedes j :=
  ⟨fun h ↦ h.imp fun _ _ ↦ Interval.precedes_iff_endsBefore.2,
    fun h ↦ h.imp fun _ _ ↦ Interval.precedes_iff_endsBefore.1⟩

theorem parse_eq_ok_iff_writtenAs : parse s = .ok r ↔ r.WrittenAs s := by
  rw [parse_eq_ok_iff]
  constructor
  · intro h
    obtain ⟨hrow, hordered, hchain⟩ := rowText_of_readChars h
    exact ⟨hrow, fun i hi ↦ Interval.isOrdered_iff_hasRoom.1 (hordered i hi),
      isChain_endsBefore_iff.2 hchain⟩
  · rintro ⟨⟨row, hrow, hpadded⟩, hroom, hascending⟩
    exact readChars_of_rowText hrow hpadded
      (fun i hi ↦ Interval.isOrdered_iff_hasRoom.2 (hroom i hi))
      (isChain_endsBefore_iff.1 hascending)

theorem parse_isChain (h : parse s = .ok r) :
    (∀ i ∈ r.intervals, i.isOrdered) ∧ r.intervals.IsChain fun i j ↦ i.precedes j :=
  (rowText_of_readChars (parse_eq_ok_iff.1 h)).2

theorem parse_eq_error {e : Error} (h : parse s = .error e) : e.text = s := by
  unfold parse at h
  cases hread : readChars s.toList with
  | error fault =>
    rw [hread] at h
    exact congrArg Error.text (Except.error.inj h).symm
  | ok is => simp [hread] at h

/-- A text is read as the range that it stands for. A text that stands for no range, and no other
one, is refused, and the error carries it. -/
theorem parse_exact (s : String) :
    (∀ r : Range, parse s = .ok r ↔ r.WrittenAs s) ∧
      ((∀ r : Range, ¬ r.WrittenAs s) ↔ ∃ fault, parse s = .error ⟨s, fault⟩) := by
  refine ⟨fun r ↦ parse_eq_ok_iff_writtenAs, ?_⟩
  constructor
  · intro hnone
    cases hparse : parse s with
    | error e => exact ⟨e.fault, by rw [← parse_eq_error hparse]⟩
    | ok r => exact absurd (parse_eq_ok_iff_writtenAs.1 hparse) (hnone r)
  · rintro ⟨fault, hparse⟩ r hr
    have hok := parse_eq_ok_iff_writtenAs.2 hr
    exact absurd (hparse.symm.trans hok) (by simp)

end ArtifactIndex.Range
