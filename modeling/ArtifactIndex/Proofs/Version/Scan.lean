import Mathlib.Data.Nat.Digits.Defs
import ArtifactIndex.Proofs.Text.LowerCase
import ArtifactIndex.Version.Components

/-!
# Scanning runs of digits and letters

The scanner of versions takes one character after the other; here it takes whole runs. A run of
digits becomes the natural number it denotes, whatever zeros lead it (`scan_digitRun`), numbers with
full stops between them become a row of numbers (`scan_row`), and a run of letters becomes a
qualifier that knows whether a number follows it directly (`scan_letters`, `scan_letters_digits`).

A text can be scanned in two parts: all that the second part has to know of the first is the
component that is unfinished behind it (`Run.after`), and what the second part becomes is put behind
what the first has finished (`scan_append_congr`).

A row in front of a list that is closed, one that ends or opens a sub list, loses its trailing zeros
when it is normalized and nothing else (`normalize_row`).
-/

set_option autoImplicit false
set_option relaxedAutoImplicit false

namespace ArtifactIndex

open Text (isLetter)

/-- The number that digits denote, the most significant first. -/
def decimal (digits : List Char) : ℕ :=
  Nat.ofDigits 10 (digits.reverse.map fun c ↦ c.toNat - '0'.toNat)

theorem decimal_append (digits : List Char) (c : Char) :
    decimal (digits ++ [c]) = 10 * decimal digits + (c.toNat - 48) := by
  unfold decimal
  rw [List.reverse_append, List.map_append, Nat.ofDigits_append]
  simp
  omega

namespace Components

/-- Numbers in a row, in front of other components. -/
def row (ns : List ℕ) (tail : Components) : Components :=
  ns.foldr (fun n rest ↦ item (.number n) rest) tail

/-! ### Digits -/

theorem not_isLetter_of_isDigit {c : Char} (h : c.isDigit) : ¬ isLetter c :=
  fun hletter ↦ (Text.isLetter_iff.1 hletter).1 h

theorem ne_separator_of_isDigit {c : Char} (h : c.isDigit) : c ≠ '.' ∧ c ≠ '-' := by
  constructor
  · rintro rfl
    exact absurd h (by decide)
  · rintro rfl
    exact absurd h (by decide)

theorem decimal_singleton (c : Char) : decimal [c] = digitValue c := by
  simp [decimal, digitValue]

theorem scan_isDigit (read : List Char) {c : Char} (hc : c.isDigit) (cs : List Char) :
    scan (.digits (decimal read)) (c :: cs) = scan (.digits (decimal (read ++ [c]))) cs := by
  obtain ⟨hstop, hhyphen⟩ := ne_separator_of_isDigit hc
  rw [scan, if_neg hstop, if_neg hhyphen, if_pos hc, decimal_append]
  rfl

theorem scan_digits (read : List Char) {digits : List Char} (h : ∀ c ∈ digits, c.isDigit)
    (cs : List Char) :
    scan (.digits (decimal read)) (digits ++ cs) =
      scan (.digits (decimal (read ++ digits))) cs := by
  induction digits generalizing read with
  | nil => simp
  | cons c digits ih =>
    rw [List.cons_append, scan_isDigit read (h c List.mem_cons_self),
      ih (read ++ [c]) fun d hd ↦ h d (List.mem_cons_of_mem _ hd)]
    simp

/-- A run of digits is read as its number, from the start of a part. -/
theorem scan_digitRun {digits : List Char} (hne : digits ≠ []) (h : ∀ c ∈ digits, c.isDigit)
    (cs : List Char) : scan .none (digits ++ cs) = scan (.digits (decimal digits)) cs := by
  cases digits with
  | nil => exact absurd rfl hne
  | cons c digits =>
    have hc : c.isDigit := h c List.mem_cons_self
    obtain ⟨hstop, hhyphen⟩ := ne_separator_of_isDigit hc
    rw [List.cons_append, scan, if_neg hstop, if_neg hhyphen, if_pos hc, ← decimal_singleton]
    exact scan_digits [c] (fun d hd ↦ h d (List.mem_cons_of_mem _ hd)) cs

/-! ### Letters -/

theorem scan_isLetter (reversed : List Char) {letters : List Char}
    (h : ∀ c ∈ letters, isLetter c) (cs : List Char) :
    scan (.letters reversed) (letters ++ cs) =
      scan (.letters (letters.reverse ++ reversed)) cs := by
  induction letters generalizing reversed with
  | nil => rfl
  | cons c letters ih =>
    obtain ⟨hdigit, hstop, hhyphen⟩ := Text.isLetter_iff.1 (h c List.mem_cons_self)
    rw [List.cons_append, scan, if_neg hstop, if_neg hhyphen, if_neg hdigit,
      ih (c :: reversed) fun d hd ↦ h d (List.mem_cons_of_mem _ hd)]
    simp

theorem scan_letterRun {letters : List Char} (hne : letters ≠ [])
    (h : ∀ c ∈ letters, isLetter c) (cs : List Char) :
    scan .none (letters ++ cs) = scan (.letters letters.reverse) cs := by
  cases letters with
  | nil => exact absurd rfl hne
  | cons c letters =>
    obtain ⟨hdigit, hstop, hhyphen⟩ := Text.isLetter_iff.1 (h c List.mem_cons_self)
    rw [List.cons_append, scan, if_neg hstop, if_neg hhyphen, if_neg hdigit,
      scan_isLetter [c] fun d hd ↦ h d (List.mem_cons_of_mem _ hd), List.reverse_cons]

/-- A run of letters at the end of the text. -/
theorem scan_letters {letters : List Char} (hne : letters ≠ [])
    (h : ∀ c ∈ letters, isLetter c) :
    scan .none letters = item (.qualifier (.ofText (String.ofList letters) false)) done := by
  have hrun := scan_letterRun hne h []
  rw [List.append_nil] at hrun
  rw [hrun, scan]
  · simp [Run.close]
  · exact Run.noConfusion

theorem scan_digits_nil (n : ℕ) : scan (.digits n) [] = item (.number n) done :=
  rfl

/-- Letters that a number follows. -/
theorem scan_letters_isDigit (reversed : List Char) {d : Char} (hd : d.isDigit)
    (back : List Char) :
    scan (.letters reversed) (d :: back) =
      item (.qualifier (.ofText (String.ofList reversed.reverse) true))
        (sublist (scan .none (d :: back))) := by
  obtain ⟨hstop, hhyphen⟩ := ne_separator_of_isDigit hd
  rw [scan, scan, if_neg hstop, if_neg hhyphen, if_pos hd, if_neg hstop, if_neg hhyphen,
    if_pos hd]

/-- A run of letters with a number directly behind it. -/
theorem scan_letters_digits {letters digits : List Char} (hletters : letters ≠ [])
    (h : ∀ c ∈ letters, isLetter c) (hdigits : digits ≠ []) (hd : ∀ c ∈ digits, c.isDigit) :
    scan .none (letters ++ digits) =
      item (.qualifier (.ofText (String.ofList letters) true))
        (sublist (item (.number (decimal digits)) done)) := by
  have hnumber := scan_digitRun hdigits hd []
  rw [List.append_nil, scan_digits_nil] at hnumber
  rw [scan_letterRun hletters h, ← hnumber]
  cases digits with
  | nil => exact absurd rfl hdigits
  | cons c digits =>
    rw [scan_letters_isDigit _ (hd c List.mem_cons_self), List.reverse_reverse]

/-! ### One character, and a text in two parts -/

namespace Run

/-- The component that is unfinished behind one more character. -/
def push (run : Run) (c : Char) : Run :=
  if c = '.' ∨ c = '-' then none
  else if c.isDigit then
    match run with
    | digits n => digits (10 * n + digitValue c)
    | _ => digits (digitValue c)
  else
    match run with
    | letters reversed => letters (c :: reversed)
    | _ => letters [c]

/-- What one more character finishes, in front of what is read from there on. -/
def finish (run : Run) (c : Char) (rest : Components) : Components :=
  if c = '.' then item run.close rest
  else if c = '-' then item run.close (sublist rest)
  else if c.isDigit then
    match run with
    | letters reversed =>
      item (.qualifier (.ofText (String.ofList reversed.reverse) true)) (sublist rest)
    | _ => rest
  else
    match run with
    | digits n => item (.number n) (sublist rest)
    | _ => rest

/-- The component that is unfinished behind a text. -/
def after (run : Run) (cs : List Char) : Run :=
  cs.foldl push run

end Run

theorem scan_cons (run : Run) (c : Char) (cs : List Char) :
    scan run (c :: cs) = run.finish c (scan (run.push c) cs) := by
  unfold Run.finish Run.push
  cases run <;> rw [scan] <;> split_ifs <;> simp_all

theorem scan_stop (run : Run) (cs : List Char) :
    scan run ('.' :: cs) = item run.close (scan .none cs) := by
  cases run <;> rw [scan, if_pos rfl]

theorem scan_hyphen (run : Run) (cs : List Char) :
    scan run ('-' :: cs) = item run.close (sublist (scan .none cs)) := by
  cases run <;> rw [scan, if_neg (by decide), if_pos rfl]

/-- What is the same, in some respect, behind a text that has been read is the same in front of
it, if that respect is kept by components put in front and by opening a list. -/
theorem scan_append_congr {R : Components → Components → Prop}
    (hitem : ∀ (d : Component) {xs ys : Components}, R xs ys → R (item d xs) (item d ys))
    (hsublist : ∀ {xs ys : Components}, R xs ys → R (sublist xs) (sublist ys))
    {tail tail' : List Char} (front : List Char) (run : Run)
    (h : R (scan (run.after front) tail) (scan (run.after front) tail')) :
    R (scan run (front ++ tail)) (scan run (front ++ tail')) := by
  have hfinish : ∀ (run : Run) (c : Char) {xs ys : Components}, R xs ys →
      R (run.finish c xs) (run.finish c ys) := by
    intro run c xs ys hxs
    unfold Run.finish
    split_ifs
    · exact hitem _ hxs
    · exact hitem _ (hsublist hxs)
    · cases run with
      | letters reversed => exact hitem _ (hsublist hxs)
      | _ => exact hxs
    · cases run with
      | digits n => exact hitem _ (hsublist hxs)
      | _ => exact hxs
  induction front generalizing run with
  | nil => exact h
  | cons c front ih =>
    rw [List.cons_append, List.cons_append, scan_cons, scan_cons]
    exact hfinish run c (ih (run.push c) h)

/-! ### What is unfinished behind a text -/

theorem push_isDigit (run : Run) {c : Char} (hc : c.isDigit) : ∃ n, run.push c = .digits n := by
  obtain ⟨hstop, hhyphen⟩ := ne_separator_of_isDigit hc
  unfold Run.push
  rw [if_neg (by simp [hstop, hhyphen]), if_pos hc]
  cases run <;> exact ⟨_, rfl⟩

theorem push_isLetter (run : Run) {c : Char} (hc : isLetter c) :
    run.push c =
      match run with
      | .letters reversed => .letters (c :: reversed)
      | _ => .letters [c] := by
  obtain ⟨hdigit, hstop, hhyphen⟩ := Text.isLetter_iff.1 hc
  unfold Run.push
  rw [if_neg (by simp [hstop, hhyphen]), if_neg hdigit]

theorem push_ne_letters (run : Run) {c : Char} (hc : ¬ isLetter c) (reversed : List Char) :
    run.push c ≠ .letters reversed := by
  by_cases hdigit : c.isDigit
  · obtain ⟨n, hn⟩ := push_isDigit run hdigit
    rw [hn]
    exact Run.noConfusion
  · have hseparator : c = '.' ∨ c = '-' := by
      by_contra hne
      rw [not_or] at hne
      exact hc (Text.isLetter_iff.2 ⟨hdigit, hne⟩)
    unfold Run.push
    rw [if_pos hseparator]
    exact Run.noConfusion

theorem after_append (run : Run) (xs ys : List Char) :
    run.after (xs ++ ys) = (run.after xs).after ys :=
  List.foldl_append

theorem after_concat_isDigit (run : Run) (cs : List Char) {c : Char} (hc : c.isDigit) :
    ∃ n, run.after (cs ++ [c]) = .digits n := by
  rw [after_append]
  exact push_isDigit _ hc

theorem after_ne_letters {front : List Char} (h : ∀ c ∈ front.getLast?, ¬ isLetter c)
    (reversed : List Char) : Run.none.after front ≠ .letters reversed := by
  rcases List.eq_nil_or_concat' front with rfl | ⟨front, c, rfl⟩
  · exact Run.noConfusion
  · rw [after_append]
    exact push_ne_letters _ (h c (by simp)) reversed

theorem after_letters (reversed : List Char) {letters : List Char}
    (h : ∀ c ∈ letters, isLetter c) :
    (Run.letters reversed).after letters = .letters (letters.reverse ++ reversed) := by
  induction letters generalizing reversed with
  | nil => rfl
  | cons c letters ih =>
    rw [Run.after, List.foldl_cons, push_isLetter _ (h c List.mem_cons_self), ← Run.after,
      ih (c :: reversed) fun d hd ↦ h d (List.mem_cons_of_mem _ hd)]
    simp

/-- Letters behind a text that does not end in a letter are unfinished by themselves. -/
theorem after_letterRun {front letters : List Char} (hfront : ∀ c ∈ front.getLast?, ¬ isLetter c)
    (hne : letters ≠ []) (h : ∀ c ∈ letters, isLetter c) :
    Run.none.after (front ++ letters) = .letters letters.reverse := by
  cases letters with
  | nil => exact absurd rfl hne
  | cons c letters =>
    have hpush : (Run.none.after front).push c = .letters [c] := by
      rw [push_isLetter _ (h c List.mem_cons_self)]
      cases hrun : Run.none.after front with
      | letters reversed => exact absurd hrun (after_ne_letters hfront reversed)
      | _ => rfl
    rw [after_append, Run.after, List.foldl_cons, hpush, ← Run.after,
      after_letters [c] fun d hd ↦ h d (List.mem_cons_of_mem _ hd), List.reverse_cons]

/-! ### Rows of numbers -/

/-- What a text behind a number holds, which is empty or starts with a hyphen. -/
def afterNumber : List Char → Components
  | [] => done
  | _ :: cs => sublist (scan .none cs)

theorem scan_digits_afterNumber (n : ℕ) {cs : List Char} (h : ∀ c ∈ cs.head?, c = '-') :
    scan (.digits n) cs = item (.number n) (afterNumber cs) := by
  cases cs with
  | nil => rfl
  | cons c cs =>
    obtain rfl : c = '-' := h c rfl
    exact scan_hyphen _ _

/-- Numbers with full stops between them. -/
theorem scan_row {runs : List (List Char)} (hne : runs ≠ [])
    (h : ∀ digits ∈ runs, digits ≠ [] ∧ ∀ c ∈ digits, c.isDigit) {cs : List Char}
    (hcs : ∀ c ∈ cs.head?, c = '-') :
    scan .none (['.'].intercalate runs ++ cs) = row (runs.map decimal) (afterNumber cs) := by
  induction runs with
  | nil => exact absurd rfl hne
  | cons digits runs ih =>
    obtain ⟨hdigits, hall⟩ := h digits List.mem_cons_self
    cases runs with
    | nil =>
      rw [List.intercalate_singleton, scan_digitRun hdigits hall, scan_digits_afterNumber _ hcs]
      rfl
    | cons digits' runs =>
      rw [List.intercalate_cons_cons, List.append_assoc, List.append_assoc,
        scan_digitRun hdigits hall, List.singleton_append, scan_stop,
        ih (by simp) fun digits hmem ↦ h digits (List.mem_cons_of_mem _ hmem)]
      rfl

/-! ### Normal form -/

theorem isNull_number (n : ℕ) : (Component.number n).isNull ↔ n = 0 := by
  simp [Component.isNull, Component.cmpPadding]

theorem isNull_qualifier (p : Qualifier) :
    (Component.qualifier p).isNull ↔ p.rank = Qualifier.release.rank := by
  simp [Component.isNull, Component.cmpPadding]

/-- The numbers up to the last that is not zero. -/
def dropZeros : List ℕ → List ℕ
  | [] => []
  | n :: ns =>
    match dropZeros ns with
    | [] => if n = 0 then [] else [n]
    | ms => n :: ms

theorem dropZeros_cons_eq_nil_iff {n : ℕ} {ns : List ℕ} :
    dropZeros (n :: ns) = [] ↔ n = 0 ∧ dropZeros ns = [] := by
  rw [dropZeros]
  split
  · next hnil => simp [hnil]
  · next hne =>
    simp only [reduceCtorEq, false_iff]
    exact fun hboth ↦ hne hboth.2

theorem dropZeros_cons_of_ne_nil {n : ℕ} {ns : List ℕ} (h : dropZeros (n :: ns) ≠ []) :
    dropZeros (n :: ns) = n :: dropZeros ns := by
  rw [dropZeros] at h ⊢
  split
  · next hnil =>
    rw [hnil] at h
    rw [hnil, if_neg]
    intro hzero
    simp [hzero] at h
  · rfl

theorem startsClosed_row {ns : List ℕ} {tail : Components} (h : tail.startsClosed) :
    (row ns tail).startsClosed ↔ ns = [] := by
  cases ns with
  | nil => simpa [row] using h
  | cons n ns => simp [row, startsClosed]

theorem normalize_row {ns : List ℕ} {tail : Components} (h : tail.normalize.startsClosed) :
    (row ns tail).normalize = row (dropZeros ns) tail.normalize := by
  induction ns with
  | nil => rfl
  | cons n ns ih =>
    have hclosed : (row (dropZeros ns) tail.normalize).startsClosed ↔ dropZeros ns = [] :=
      startsClosed_row h
    change (item (.number n) (row ns tail)).normalize = _
    rw [normalize, ih]
    by_cases hdrop : dropZeros (n :: ns) = []
    · obtain ⟨hzero, hnil⟩ := dropZeros_cons_eq_nil_iff.1 hdrop
      rw [hdrop, hnil, if_pos]
      rw [Bool.and_eq_true, isNull_number]
      exact ⟨hzero, h⟩
    · rw [dropZeros_cons_of_ne_nil hdrop, if_neg]
      · rfl
      · rw [Bool.and_eq_true, isNull_number, hclosed]
        exact fun hboth ↦ hdrop (dropZeros_cons_eq_nil_iff.2 hboth)

end Components
end ArtifactIndex
