import Mathlib.Data.List.Induction
import ArtifactIndex.Proofs.Version.Scan

/-!
# The lists of a version

Components written out as the lists they stand for (`Components.entries`): an entry is a number in
decimal digits, a qualifier, or a list again. A list is normalized by walking over it from its end
(`Entry.normalizeList`), and digits are read without the zeros in front of them
(`Entry.stripZeros_eq`).

Normalizing components works on all of their lists at once. On one list whose sub list is
normalized already it comes to the same as the walk from the end (`normalizeList_chain`,
`normalizeList_sublist`).
-/

set_option autoImplicit false
set_option relaxedAutoImplicit false

namespace ArtifactIndex

namespace Components

/-! ### Entries -/

/-- An entry of a list, written out. -/
inductive Entry where
  | digits (text : List Char)
  | qualifier (name : Qualifier)
  | sublist (entries : List Entry)

namespace Entry

/-- Digits without the zeros in front of them, or a single zero. -/
def stripZeros (text : List Char) : List Char :=
  match text.dropWhile (· == '0') with
  | [] => ['0']
  | rest => rest

def isSublist : Entry → Bool
  | sublist _ => true
  | _ => false

def isNull : Entry → Bool
  | digits text => text == ['0']
  | qualifier name => name.rank == Qualifier.release.rank
  | sublist entries => entries.isEmpty

/-- Drops null entries from the end of a list, which is given in reverse, up to the first number or
qualifier that is not null. Sub lists are passed over. -/
def dropNulls : List Entry → List Entry
  | [] => []
  | e :: before =>
    if e.isNull then dropNulls before
    else if e.isSublist then e :: dropNulls before
    else e :: before

def normalizeList (entries : List Entry) : List Entry :=
  (dropNulls entries.reverse).reverse

theorem dropNulls_concat (before : List Entry) (e : Entry) :
    dropNulls (before ++ [e]) =
      if e.isNull && (dropNulls before).all isSublist then dropNulls before
      else dropNulls before ++ [e] := by
  induction before with
  | nil => cases e <;> simp [dropNulls, isSublist]
  | cons d before ih =>
    rw [List.cons_append, dropNulls, dropNulls]
    by_cases hnull : d.isNull
    · rw [if_pos hnull, if_pos hnull, ih]
    · rw [if_neg hnull, if_neg hnull]
      by_cases hsublist : d.isSublist
      · rw [if_pos hsublist, if_pos hsublist, ih, List.all_cons, hsublist, Bool.true_and,
          apply_ite (List.cons d), List.cons_append]
      · -- the walk ends at `d`, so `e` is not reached
        simp [hsublist]

/-- An entry in front goes if it is null and only sub lists are left behind it. -/
theorem normalizeList_cons (e : Entry) (entries : List Entry) :
    normalizeList (e :: entries) =
      if e.isNull && (normalizeList entries).all isSublist then normalizeList entries
      else e :: normalizeList entries := by
  rw [normalizeList, List.reverse_cons, dropNulls_concat, normalizeList, List.all_reverse]
  split
  · rfl
  · rw [List.reverse_concat]

end Entry

/-! ### Digits -/

theorem digitValue_lt {c : Char} (hc : c.isDigit) : digitValue c < 10 := by
  have hbounds : 48 ≤ c.toNat ∧ c.toNat ≤ 57 := Char.isDigit_iff_toNat.1 hc
  rw [digitValue]
  omega

theorem toDigits_digitValue {c : Char} (hc : c.isDigit) : Nat.toDigits 10 (digitValue c) = [c] := by
  have hbounds : 48 ≤ c.toNat ∧ c.toNat ≤ 57 := Char.isDigit_iff_toNat.1 hc
  have hchar : Nat.digitChar (digitValue c) = c := by
    apply Char.toNat_inj.1
    rw [Nat.toNat_digitChar_of_lt_ten (digitValue_lt hc), digitValue]
    omega
  rw [Nat.toDigits_of_lt_base (digitValue_lt hc), hchar]

theorem toDigits_eq_zero_iff (n : ℕ) : Nat.toDigits 10 n = ['0'] ↔ n = 0 := by
  constructor
  · intro h
    have hvalue : Nat.ofDigitChars 10 (Nat.toDigits 10 n) 0 = n := Nat.ofDigitChars_ten_toDigits
    rw [← hvalue, h]
    rfl
  · rintro rfl
    exact Nat.toDigits_zero 10

theorem digitValue_eq_zero_iff {c : Char} (hc : c.isDigit) : digitValue c = 0 ↔ c = '0' := by
  rw [← toDigits_eq_zero_iff, toDigits_digitValue hc, List.singleton_inj]

/-- Behind the zeros in front, digits are those of the number they denote. -/
theorem dropWhile_zeros {digits : List Char} (h : ∀ c ∈ digits, c.isDigit) :
    digits.dropWhile (· == '0') =
      if decimal digits = 0 then [] else Nat.toDigits 10 (decimal digits) := by
  induction digits using List.reverseRecOn with
  | nil => rfl
  | append_singleton digits c ih =>
    rw [List.forall_mem_append] at h
    have hc : c.isDigit := h.2 c List.mem_cons_self
    have hvalue : decimal (digits ++ [c]) = 10 * decimal digits + digitValue c :=
      decimal_append digits c
    rw [List.dropWhile_append, ih h.1, hvalue]
    by_cases hzero : decimal digits = 0
    · rw [if_pos hzero, hzero, Nat.mul_zero, Nat.zero_add, toDigits_digitValue hc]
      simp [List.dropWhile_cons, digitValue_eq_zero_iff hc]
    · have hne : 10 * decimal digits + digitValue c ≠ 0 := by omega
      rw [if_neg hzero, if_neg (by simp [Nat.toDigits_ne_nil]), if_neg hne,
        ← toDigits_digitValue hc,
        Nat.toDigits_append_toDigits (by decide) (Nat.pos_of_ne_zero hzero) (digitValue_lt hc)]

theorem Entry.stripZeros_eq {digits : List Char} (h : ∀ c ∈ digits, c.isDigit) :
    stripZeros digits = Nat.toDigits 10 (decimal digits) := by
  rw [stripZeros, dropWhile_zeros h]
  by_cases hzero : decimal digits = 0
  · rw [if_pos hzero, hzero, Nat.toDigits_zero]
  · rw [if_neg hzero]
    split
    · next hnil => exact absurd hnil Nat.toDigits_ne_nil
    · rfl

end Components

/-! ### The entries of components -/

/-- A number is written in decimal digits. -/
def Component.entry : Component → Components.Entry
  | number n => .digits (Nat.toDigits 10 n)
  | qualifier p => .qualifier p

namespace Components

theorem isSublist_entry (c : Component) : c.entry.isSublist = false := by
  cases c <;> rfl

theorem isNull_entry (c : Component) : c.entry.isNull = c.isNull := by
  rw [Bool.eq_iff_iff]
  cases c with
  | number n =>
    rw [isNull_number, Component.entry, Entry.isNull, beq_iff_eq, toDigits_eq_zero_iff]
  | qualifier p =>
    rw [isNull_qualifier, Component.entry, Entry.isNull, beq_iff_eq]

/-- Components as entries, each sub list an entry of its own. -/
def entries : Components → List Entry
  | done => []
  | item c rest => c.entry :: rest.entries
  | sublist inner => [.sublist inner.entries]

theorem entries_eq_nil_iff {xs : Components} : xs.entries = [] ↔ xs = done := by
  cases xs <;> simp [entries]

theorem all_isSublist_entries (xs : Components) :
    xs.entries.all Entry.isSublist = xs.startsClosed := by
  cases xs with
  | item c rest => simp [entries, startsClosed, isSublist_entry]
  | _ => rfl

/-! ### Normalizing list by list -/

/-- Components in a row, in front of others. -/
def chain (front : List Component) (tail : Components) : Components :=
  front.foldr item tail

theorem normalizeList_entry {entries : List Entry} {xs : Components}
    (h : Entry.normalizeList entries = xs.normalize.entries) (c : Component) :
    Entry.normalizeList (c.entry :: entries) = (item c xs).normalize.entries := by
  rw [Entry.normalizeList_cons, h, all_isSublist_entries, isNull_entry, normalize]
  split <;> rfl

theorem normalizeList_chain {entries : List Entry} {xs : Components}
    (h : Entry.normalizeList entries = xs.normalize.entries) (front : List Component) :
    Entry.normalizeList (front.map Component.entry ++ entries) =
      (chain front xs).normalize.entries := by
  induction front with
  | nil => exact h
  | cons c front ih => exact normalizeList_entry ih c

/-- A sub list that is normalized already goes if nothing is left of it. -/
theorem normalizeList_sublist (xs : Components) :
    Entry.normalizeList [.sublist xs.normalize.entries] = (sublist xs).normalize.entries := by
  rw [normalize]
  split
  · next hdone =>
    rw [hdone]
    rfl
  · next hne =>
    have hentries : xs.normalize.entries ≠ [] := fun h ↦ hne (entries_eq_nil_iff.1 h)
    simp [Entry.normalizeList, Entry.dropNulls, Entry.isNull, Entry.isSublist, hentries, entries]

end Components
end ArtifactIndex
