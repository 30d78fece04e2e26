import Mathlib.Data.List.Basic
import ArtifactIndex.Json.Printer
import ArtifactIndex.Json.Token

/-!
# Numerals as bytes

A numeral that is well formed, with digits below ten and no zero in front of other digits, is
scanned back from its bytes (`Numeral.exists_scan`). The scanner learns that a numeral has ended
only from the byte behind it, so what it reaches is an unfinished number that may end here and that
no byte in `endsNumeral` continues (`NumeralScan.add?_eq_none`).

The numerals of integers are well formed (`Numeral.wellFormed_ofInt`) and stand for the integers
they were made from (`Numeral.int?_ofInt`).
-/

set_option autoImplicit false
set_option relaxedAutoImplicit false

namespace ArtifactIndex.Json

open Text (Bytes)

theorem foldlM_cons_some {α β : Type} {f : β → α → Option β} {b b' : β} {a : α}
    (h : f b a = some b') (as : List α) : (a :: as).foldlM f b = as.foldlM f b' := by
  rw [List.foldlM_cons, h]
  rfl

/-! ### Digits -/

theorem digit?_digitByte {d : ℕ} (h : d < 10) : digit? (digitByte d) = some d := by
  have hall : ∀ d < 10, digit? (digitByte d) = some d := by
    decide
  exact hall d h

/-- A byte that continues no number. -/
def endsNumeral (b : UInt8) : Bool :=
  (digit? b).isNone && b != 0x2E && b != 0x65 && b != 0x45

namespace NumeralScan

theorem add?_digitByte (s : NumeralScan) {d : ℕ} (h : d < 10) :
    s.add? (digitByte d) = s.addDigit d := by
  rw [add?, digit?_digitByte h]

section Gathering

variable {opened : NumeralScan} {digits : List ℕ} (gather : List ℕ → NumeralScan)

/-- Digits gather in reverse as long as they leave the number in the same part. -/
theorem foldlM_digits
    (hgather : ∀ gathered d, (gather gathered).addDigit d = some (gather (d :: gathered)))
    (h : ∀ d ∈ digits, d < 10) (gathered : List ℕ) :
    (digits.map digitByte).foldlM add? (gather gathered) =
      some (gather (digits.reverse ++ gathered)) := by
  induction digits generalizing gathered with
  | nil => rfl
  | cons d digits ih =>
    have hstep : (gather gathered).add? (digitByte d) = some (gather (d :: gathered)) := by
      rw [add?_digitByte _ (h d List.mem_cons_self), hgather]
    rw [List.map_cons, foldlM_cons_some hstep, List.reverse_cons, List.append_assoc]
    exact ih (fun e he ↦ h e (List.mem_cons_of_mem _ he)) (d :: gathered)

/-- A part that its first digit opens. -/
theorem foldlM_digitRun (hopen : ∀ d, opened.addDigit d = some (gather [d]))
    (hgather : ∀ gathered d, (gather gathered).addDigit d = some (gather (d :: gathered)))
    (hne : digits ≠ []) (h : ∀ d ∈ digits, d < 10) :
    (digits.map digitByte).foldlM add? opened = some (gather digits.reverse) := by
  obtain ⟨d, ds, rfl⟩ := List.exists_cons_of_ne_nil hne
  have hfirst : opened.add? (digitByte d) = some (gather [d]) := by
    rw [add?_digitByte _ (h d List.mem_cons_self), hopen]
  rw [List.map_cons, foldlM_cons_some hfirst, List.reverse_cons]
  exact foldlM_digits gather hgather (fun e he ↦ h e (List.mem_cons_of_mem _ he)) [d]

end Gathering

theorem add?_eq_none {s : NumeralScan} {n : Numeral} (hs : s.finish? = some n) {b : UInt8}
    (hb : endsNumeral b) : s.add? b = none := by
  obtain ⟨⟨⟨hdigit, hpoint⟩, hsmall⟩, hcapital⟩ : ((digit? b = none ∧ b ≠ 0x2E) ∧ b ≠ 0x65) ∧
      b ≠ 0x45 := by
    simpa [endsNumeral] using hb
  rw [add?, hdigit]
  cases hpart : s.part <;> simp_all [finish?]

/-! ### The parts of a numeral -/

/-- A number from its first byte on. -/
def read? : Bytes → Option NumeralScan
  | [] => none
  | b :: bs => (start? b).bind fun s ↦ bs.foldlM add? s

theorem read?_append {xs : Bytes} {s : NumeralScan} (h : read? xs = some s) (ys : Bytes) :
    read? (xs ++ ys) = ys.foldlM add? s := by
  cases xs with
  | nil => exact absurd h (by simp [read?])
  | cons b xs =>
    obtain ⟨first, hfirst, hrest⟩ := Option.bind_eq_some_iff.1 h
    rw [List.cons_append, read?, hfirst, Option.bind_some, List.foldlM_append, hrest]
    rfl

/-- The part that the first digit of a number opens. -/
def leadPart (d : ℕ) : NumeralPart :=
  if d = 0 then .zero else .whole

theorem read?_sign (negative : Bool) {d : ℕ} (h : d < 10) :
    read? ((if negative then [0x2D] else []) ++ [digitByte d]) =
      some ⟨leadPart d, negative, [d], [], false, []⟩ := by
  cases negative with
  | false =>
    have hsign : digitByte d ≠ 0x2D := by
      have hall : ∀ d < 10, digitByte d ≠ 0x2D := by
        decide
      exact hall d h
    simp [read?, start?, hsign, digit?_digitByte h, leadPart]
  | true =>
    change [digitByte d].foldlM add? ⟨.sign, true, [], [], false, []⟩ = _
    rw [List.foldlM_cons, add?_digitByte _ h]
    rfl

theorem read?_whole (negative : Bool) {d : ℕ} {ds : List ℕ} (hlead : d = 0 → ds = [])
    (h : ∀ e ∈ d :: ds, e < 10) :
    read? ((if negative then [0x2D] else []) ++ (d :: ds).map digitByte) =
      some ⟨leadPart d, negative, (d :: ds).reverse, [], false, []⟩ := by
  have hsplit : (d :: ds).map digitByte = [digitByte d] ++ ds.map digitByte := rfl
  rw [hsplit, ← List.append_assoc, read?_append (read?_sign negative (h d List.mem_cons_self))]
  by_cases hzero : d = 0
  · rw [hlead hzero]
    rfl
  · have hrest : ∀ e ∈ ds, e < 10 := fun e he ↦ h e (List.mem_cons_of_mem _ he)
    rw [leadPart, if_neg hzero, List.reverse_cons]
    exact foldlM_digits (fun gathered ↦ ⟨.whole, negative, gathered, [], false, []⟩)
      (fun _ _ ↦ rfl) hrest [d]

theorem foldlM_fraction {part : NumeralPart} (hpart : part = .zero ∨ part = .whole)
    (negative : Bool) (whole : List ℕ) {ds : List ℕ} (h : ∀ d ∈ ds, d < 10) :
    ∃ part', (part' = .zero ∨ part' = .whole ∨ part' = .fraction) ∧
      (if ds.isEmpty then [] else 0x2E :: ds.map digitByte).foldlM add?
        ⟨part, negative, whole, [], false, []⟩ =
          some ⟨part', negative, whole, ds.reverse, false, []⟩ := by
  by_cases hempty : ds = []
  · subst hempty
    exact ⟨part, hpart.elim .inl (fun h ↦ .inr (.inl h)), rfl⟩
  · have hpoint : add? ⟨part, negative, whole, [], false, []⟩ 0x2E =
        some ⟨.point, negative, whole, [], false, []⟩ := by
      rcases hpart with rfl | rfl <;> rfl
    refine ⟨.fraction, .inr (.inr rfl), ?_⟩
    rw [if_neg (by simpa using hempty), foldlM_cons_some hpoint]
    exact foldlM_digitRun (fun gathered ↦ ⟨.fraction, negative, whole, gathered, false, []⟩)
      (fun _ ↦ rfl) (fun _ _ ↦ rfl) hempty h

theorem add?_markSign (negative : Bool) (whole fraction : List ℕ) (down : Bool) :
    add? ⟨.mark, negative, whole, fraction, false, []⟩ (if down then 0x2D else 0x2B) =
      some ⟨.markSign, negative, whole, fraction, down, []⟩ := by
  cases down <;> rfl

theorem foldlM_exponent {part : NumeralPart}
    (hpart : part = .zero ∨ part = .whole ∨ part = .fraction) (negative : Bool)
    (whole fraction : List ℕ) {exponent : Option (Bool × List ℕ)}
    (h : ∀ e ∈ exponent, e.2 ≠ [] ∧ ∀ d ∈ e.2, d < 10) :
    ∃ s : NumeralScan, (match exponent with
      | none => []
      | some (down, digits) =>
        0x65 :: (if down then 0x2D else 0x2B) :: digits.map digitByte).foldlM add?
          ⟨part, negative, whole, fraction, false, []⟩ = some s ∧
      s.finish? = some ⟨negative, whole.reverse, fraction.reverse, exponent⟩ := by
  cases exponent with
  | none => exact ⟨_, rfl, by rcases hpart with rfl | rfl | rfl <;> rfl⟩
  | some e =>
    obtain ⟨down, digits⟩ := e
    obtain ⟨hne, hlt⟩ := h _ rfl
    have hmark : add? ⟨part, negative, whole, fraction, false, []⟩ 0x65 =
        some ⟨.mark, negative, whole, fraction, false, []⟩ := by
      rcases hpart with rfl | rfl | rfl <;> rfl
    refine ⟨⟨.exponent, negative, whole, fraction, down, digits.reverse⟩, ?_, ?_⟩
    · rw [foldlM_cons_some hmark, foldlM_cons_some (add?_markSign negative whole fraction down)]
      exact foldlM_digitRun (fun gathered ↦ ⟨.exponent, negative, whole, fraction, down, gathered⟩)
        (fun _ ↦ rfl) (fun _ _ ↦ rfl) hne hlt
    · simp [finish?]

end NumeralScan

namespace Numeral

/-- Digits below ten, at least one in front of the point and, if there is one, in the exponent, and
no zero in front of other digits. -/
structure WellFormed (n : Numeral) : Prop where
  leads : ∃ d ds, n.whole = d :: ds ∧ (d = 0 → ds = [])
  whole_lt : ∀ d ∈ n.whole, d < 10
  fraction_lt : ∀ d ∈ n.fraction, d < 10
  exponent_lt : ∀ e ∈ n.exponent, e.2 ≠ [] ∧ ∀ d ∈ e.2, d < 10

/-- A well-formed numeral is scanned from its bytes. -/
theorem exists_scan {n : Numeral} (h : n.WellFormed) :
    ∃ s, NumeralScan.read? n.bytes = some s ∧ s.finish? = some n := by
  obtain ⟨negative, whole, fraction, exponent⟩ := n
  obtain ⟨⟨d, ds, rfl, hlead⟩, hwhole, hfraction, hexponent⟩ := h
  have hpart : NumeralScan.leadPart d = .zero ∨ NumeralScan.leadPart d = .whole := by
    unfold NumeralScan.leadPart
    split
    · exact .inl rfl
    · exact .inr rfl
  obtain ⟨part, hpart', hpoint⟩ :=
    NumeralScan.foldlM_fraction hpart negative (d :: ds).reverse hfraction
  obtain ⟨s, hread, hfinish⟩ :=
    NumeralScan.foldlM_exponent hpart' negative (d :: ds).reverse fraction.reverse hexponent
  refine ⟨s, ?_, ?_⟩
  · rw [bytes, List.append_assoc,
      NumeralScan.read?_append (NumeralScan.read?_whole negative hlead hwhole),
      List.foldlM_append, hpoint]
    exact hread
  · rw [hfinish, List.reverse_reverse, List.reverse_reverse]

/-! ### Integers -/

theorem digitsOf_of_lt {n : ℕ} (h : n < 10) : digitsOf n = [n] := by
  have hall : ∀ n < 10, (Nat.digitChar n).toNat - 48 = n := by
    decide
  rw [digitsOf, Nat.toDigits_of_lt_base h, List.map_singleton, hall n h]

theorem digitsOf_of_le {n : ℕ} (h : 10 ≤ n) : digitsOf n = digitsOf (n / 10) ++ [n % 10] := by
  have hlast : digitsOf (n % 10) = [n % 10] := digitsOf_of_lt (Nat.mod_lt n (by decide))
  rw [digitsOf, Nat.toDigits_of_base_le (by decide) h, List.map_append, ← digitsOf, ← hlast,
    digitsOf, digitsOf, Nat.toDigits_of_lt_base (Nat.mod_lt n (by decide))]

/-- Induction along the digits of a number. -/
theorem digits_induction {P : ℕ → Prop} (one : ∀ n < 10, P n)
    (more : ∀ n, 10 ≤ n → P (n / 10) → P n) (n : ℕ) : P n := by
  induction n using Nat.strongRecOn with
  | ind n ih =>
    rcases Nat.lt_or_ge n 10 with hlt | hge
    · exact one n hlt
    · exact more n hge (ih (n / 10) (by omega))

theorem value_digitsOf (n : ℕ) : value (digitsOf n) = n := by
  induction n using digits_induction with
  | one n h =>
    rw [digitsOf_of_lt h]
    simp [value]
  | more n h ih =>
    unfold value at ih ⊢
    rw [digitsOf_of_le h, List.foldl_append, ih, List.foldl_cons, List.foldl_nil]
    omega

theorem digitsOf_lt (n : ℕ) : ∀ d ∈ digitsOf n, d < 10 := by
  induction n using digits_induction with
  | one n h =>
    rw [digitsOf_of_lt h]
    simpa using h
  | more n h ih =>
    rw [digitsOf_of_le h, List.forall_mem_append]
    exact ⟨ih, by simpa using Nat.mod_lt n (by decide)⟩

theorem exists_digitsOf (n : ℕ) : ∃ d ds, digitsOf n = d :: ds ∧ (d = 0 → n = 0 ∧ ds = []) := by
  induction n using digits_induction with
  | one n h => exact ⟨n, [], digitsOf_of_lt h, fun hzero ↦ ⟨hzero, rfl⟩⟩
  | more n h ih =>
    obtain ⟨d, ds, hdigits, hzero⟩ := ih
    refine ⟨d, ds ++ [n % 10], by rw [digitsOf_of_le h, hdigits]; rfl, fun hd ↦ ?_⟩
    have hquotient : n / 10 = 0 := (hzero hd).1
    omega

theorem wellFormed_ofInt (i : Int) : (ofInt i).WellFormed where
  leads := by
    obtain ⟨d, ds, hdigits, hzero⟩ := exists_digitsOf i.natAbs
    exact ⟨d, ds, hdigits, fun hd ↦ (hzero hd).2⟩
  whole_lt := digitsOf_lt i.natAbs
  fraction_lt := by simp [ofInt]
  exponent_lt := by simp [ofInt]

theorem int?_ofInt (i : Int) : (ofInt i).int? = some i := by
  have hvalue : value (ofInt i).whole = i.natAbs := value_digitsOf i.natAbs
  have hinteger : (ofInt i).isInteger := rfl
  rw [int?, if_pos hinteger, hvalue]
  by_cases hnegative : i < 0
  · have hsign : (ofInt i).negative := decide_eq_true hnegative
    have hne : i.natAbs ≠ 0 := by omega
    rw [if_pos hsign, if_neg hne]
    exact congrArg some (by omega)
  · have hsign : ¬ (ofInt i).negative := fun h ↦ hnegative (of_decide_eq_true h)
    rw [if_neg hsign]
    exact congrArg some (by omega)

end Numeral
end ArtifactIndex.Json
