import Mathlib.Data.List.Basic
import ArtifactIndex.Text.Case

/-!
# Lower-casing of texts in parts

Only the capital sigma looks at the text around it, and it looks no further than the next character
that is neither cased nor ignorable for casing. At such a neutral character a text can be cut: the
part in front of it (`lowerAfter_append`) and the part behind it (`lowerAfter_of_startsNeutral`) are
lower-cased as if the other were not there (`lowerChars_append_cons`). Digits and hyphens are
neutral. A full stop is not, but like those it stays itself.

No lower-case form brings in an ASCII digit, a full stop or a hyphen (`isLetter_of_mem_lowerAfter`),
so lower-casing does not change where a version is cut.
-/

set_option autoImplicit false
set_option relaxedAutoImplicit false

namespace ArtifactIndex.Text

/-! ### Cutting a text at a neutral character -/

/-- The search for a cased character ends here without one. -/
def isNeutral (c : Char) : Bool :=
  !isCaseIgnorable c && !isCased c

def StartsNeutral (cs : List Char) : Prop :=
  ∀ c ∈ cs.head?, isNeutral c

theorem startsNeutral_nil : StartsNeutral [] := by
  simp [StartsNeutral]

theorem startsNeutral_cons {c : Char} (h : isNeutral c) (cs : List Char) :
    StartsNeutral (c :: cs) := by
  simpa [StartsNeutral] using h

theorem isNeutral_hyphen : isNeutral '-' := by
  decide +kernel

theorem lowerChar_hyphen : lowerChar '-' = ['-'] := by
  decide +kernel

theorem isNeutral_of_isDigit {c : Char} (h : c.isDigit) : isNeutral c := by
  have hcode : ∀ n < 58, 48 ≤ n →
      (!inStretch caseIgnorableStretches n && !inStretch casedStretches n) = true := by
    decide +kernel
  have hbounds : 48 ≤ c.toNat ∧ c.toNat ≤ 57 := Char.isDigit_iff_toNat.1 h
  exact hcode c.toNat (by omega) hbounds.1

theorem reachesCased_of_startsNeutral {cs : List Char} (h : StartsNeutral cs) :
    reachesCased cs = false := by
  cases cs with
  | nil => rfl
  | cons c cs =>
    have hneutral : isCaseIgnorable c = false ∧ isCased c = false := by
      simpa [StartsNeutral, isNeutral] using h
    simp [reachesCased, hneutral]

theorem reachesCased_append_of_eq_false {xs ys : List Char} (h : reachesCased ys = false) :
    reachesCased (xs ++ ys) = reachesCased xs := by
  induction xs with
  | nil => exact h
  | cons c xs ih =>
    unfold reachesCased at ih ⊢
    rw [List.cons_append, List.dropWhile_cons, List.dropWhile_cons]
    by_cases hignorable : isCaseIgnorable c
    · rw [if_pos hignorable, if_pos hignorable]
      exact ih
    · rw [if_neg hignorable, if_neg hignorable]

theorem reachesCased_append {xs ys : List Char} (h : StartsNeutral ys) :
    reachesCased (xs ++ ys) = reachesCased xs :=
  reachesCased_append_of_eq_false (reachesCased_of_startsNeutral h)

/-- A text in which no cased character comes first does not matter in front of it. -/
theorem lowerAfter_append_of_eq_false {before xs ys : List Char} (h : reachesCased ys = false) :
    lowerAfter before (xs ++ ys) =
      lowerAfter before xs ++ lowerAfter (xs.reverse ++ before) ys := by
  induction xs generalizing before with
  | nil => rfl
  | cons c xs ih =>
    rw [List.cons_append, lowerAfter, lowerAfter, ih, reachesCased_append_of_eq_false h]
    simp

/-- What stands behind a neutral character does not matter in front of it. -/
theorem lowerAfter_append {before xs ys : List Char} (h : StartsNeutral ys) :
    lowerAfter before (xs ++ ys) =
      lowerAfter before xs ++ lowerAfter (xs.reverse ++ before) ys :=
  lowerAfter_append_of_eq_false (reachesCased_of_startsNeutral h)

/-- What stands in front of a neutral character does not matter behind it. -/
theorem lowerAfter_of_startsNeutral {before front cs : List Char} (h : StartsNeutral front) :
    lowerAfter (before ++ front) cs = lowerAfter before cs := by
  induction cs generalizing before with
  | nil => rfl
  | cons c cs ih =>
    rw [lowerAfter, lowerAfter, reachesCased_append h, ← List.cons_append, ih]

theorem lowerAfter_cons_of_isNeutral {c : Char} (h : isNeutral c) (before cs : List Char) :
    lowerAfter before (c :: cs) = lowerChar c ++ lowerChars cs := by
  have hsigma : c ≠ 'Σ' := by
    rintro rfl
    revert h
    decide +kernel
  have hfront : lowerAfter ([] ++ c :: before) cs = lowerAfter [] cs :=
    lowerAfter_of_startsNeutral (startsNeutral_cons h before)
  rw [List.nil_append] at hfront
  rw [lowerAfter, if_neg hsigma, hfront, lowerChars]

/-- A text is cut at a neutral character, and the parts are lower-cased by themselves. -/
theorem lowerChars_append_cons {c : Char} (h : isNeutral c) (xs ys : List Char) :
    lowerChars (xs ++ c :: ys) = lowerChars xs ++ (lowerChar c ++ lowerChars ys) := by
  rw [lowerChars, lowerAfter_append (startsNeutral_cons h ys), lowerAfter_cons_of_isNeutral h]
  rfl

/-- The end of a text is lower-cased by itself, but for what stands in front of it. -/
theorem exists_lowerAfter_append (before xs ys : List Char) :
    ∃ low, lowerAfter before (xs ++ ys) = low ++ lowerAfter (xs.reverse ++ before) ys := by
  induction xs generalizing before with
  | nil => exact ⟨[], rfl⟩
  | cons x xs ih =>
    obtain ⟨low, hlow⟩ := ih (x :: before)
    rw [List.cons_append, lowerAfter, hlow, List.reverse_cons, List.append_assoc,
      List.singleton_append, ← List.append_assoc]
    exact ⟨_, rfl⟩

/-! ### Characters that stay themselves -/

theorem lowerAfter_eq_self {before cs : List Char} (h : ∀ c ∈ cs, c ≠ 'Σ' ∧ lowerChar c = [c]) :
    lowerAfter before cs = cs := by
  induction cs generalizing before with
  | nil => rfl
  | cons c cs ih =>
    obtain ⟨hsigma, hself⟩ := h c List.mem_cons_self
    rw [lowerAfter, ih fun d hd ↦ h d (List.mem_cons_of_mem _ hd)]
    simp [hsigma, hself]

/-- Every character but the ASCII digits, the full stop and the hyphen. -/
def isLetter (c : Char) : Bool :=
  !c.isDigit && c != '.' && c != '-'

theorem isLetter_iff {c : Char} : isLetter c ↔ ¬ c.isDigit ∧ c ≠ '.' ∧ c ≠ '-' := by
  simp [isLetter, and_assoc]

/-- A fact about all ASCII characters, checked code by code. -/
theorem of_ascii {P : Char → Prop} (h : ∀ n < 128, P (Char.ofNat n)) {c : Char}
    (hc : c.toNat < 128) : P c := by
  have hcode : P (Char.ofNat c.toNat) := h c.toNat hc
  rwa [Char.ofNat_toNat] at hcode

theorem isLetter_iff_toNat {c : Char} : isLetter c ↔
    ¬ (48 ≤ c.toNat ∧ c.toNat ≤ 57) ∧ c.toNat ≠ 46 ∧ c.toNat ≠ 45 := by
  have hstop : c = '.' ↔ c.toNat = 46 := Char.toNat_inj.symm
  have hhyphen : c = '-' ↔ c.toNat = 45 := Char.toNat_inj.symm
  rw [isLetter_iff, Char.isDigit_iff_toNat, ne_eq, hstop, ne_eq, hhyphen]
  rfl

theorem toNat_lt_of_not_isLetter {c : Char} (h : ¬ isLetter c) : c.toNat < 128 := by
  rw [isLetter_iff_toNat] at h
  omega

theorem lowerChar_of_not_isLetter {c : Char} (h : ¬ isLetter c) :
    c ≠ 'Σ' ∧ lowerChar c = [c] :=
  of_ascii (P := fun c ↦ ¬ isLetter c → c ≠ 'Σ' ∧ lowerChar c = [c]) (by decide +kernel)
    (toNat_lt_of_not_isLetter h) h

theorem lowerAfter_of_forall_not_isLetter {before cs : List Char} (h : ∀ c ∈ cs, ¬ isLetter c) :
    lowerAfter before cs = cs :=
  lowerAfter_eq_self fun c hc ↦ lowerChar_of_not_isLetter (h c hc)

/-! ### Letters stay letters -/

/-- The small letters of all stretches lie behind the digits. -/
theorem lower?_eq_some {n m : Nat} (h : caseRuns.findSome? (fun run ↦ run.lower? n) = some m) :
    0x3A ≤ m := by
  obtain ⟨run, hrun, hlower⟩ := List.exists_of_findSome?_eq_some h
  have htarget : 0x3A ≤ run.target := by
    have hall : ∀ run ∈ caseRuns, 0x3A ≤ run.target := by
      decide +kernel
    exact hall run hrun
  unfold CaseRun.lower? at hlower
  split at hlower
  · obtain rfl := Option.some.inj hlower
    exact Nat.le_add_right_of_le htarget
  · exact absurd hlower (by simp)

theorem isLetter_ofNat {m : Nat} (h : 0x3A ≤ m) : isLetter (Char.ofNat m) := by
  by_cases hvalid : m.isValidChar
  · have hcode : (Char.ofNatAux m hvalid).toNat = m := rfl
    rw [Char.ofNat, dif_pos hvalid, isLetter_iff_toNat, hcode]
    omega
  · rw [Char.ofNat, dif_neg hvalid]
    decide

theorem isLetter_of_mem_lowerChar {c d : Char} (hc : isLetter c) (hd : d ∈ lowerChar c) :
    isLetter d := by
  unfold lowerChar at hd
  simp only at hd
  split at hd
  case isTrue hascii =>
    obtain rfl := List.mem_singleton.1 hd
    exact of_ascii (P := fun c ↦ isLetter c → isLetter c.toLower) (by decide +kernel) hascii hc
  case isFalse =>
    split at hd
    case isTrue =>
      rcases List.mem_cons.1 hd with rfl | hdot
      · decide
      · obtain rfl := List.mem_singleton.1 hdot
        decide
    case isFalse =>
      split at hd
      case h_1 m hm =>
        obtain rfl := List.mem_singleton.1 hd
        exact isLetter_ofNat (lower?_eq_some hm)
      case h_2 =>
        obtain rfl := List.mem_singleton.1 hd
        exact hc

theorem lowerChar_ne_nil (c : Char) : lowerChar c ≠ [] := by
  unfold lowerChar
  simp only
  split
  · simp
  · split
    · simp
    · split <;> simp

/-- A letter becomes one letter or several. -/
theorem lowerAfter_cons_of_isLetter {c : Char} (hc : isLetter c) (before cs : List Char) :
    ∃ low, low ≠ [] ∧ (∀ d ∈ low, isLetter d) ∧
      lowerAfter before (c :: cs) = low ++ lowerAfter (c :: before) cs := by
  have hsigma : isLetter 'ς' ∧ isLetter 'σ' := by
    decide
  refine ⟨_, ?_, ?_, rfl⟩
  · split_ifs
    · exact List.cons_ne_nil _ _
    · exact List.cons_ne_nil _ _
    · exact lowerChar_ne_nil c
  · intro d hd
    split_ifs at hd
    · obtain rfl := List.mem_singleton.1 hd
      exact hsigma.1
    · obtain rfl := List.mem_singleton.1 hd
      exact hsigma.2
    · exact isLetter_of_mem_lowerChar hc hd

theorem isLetter_of_mem_lowerAfter {before cs : List Char} (h : ∀ c ∈ cs, isLetter c) :
    ∀ d ∈ lowerAfter before cs, isLetter d := by
  induction cs generalizing before with
  | nil => simp [lowerAfter]
  | cons c cs ih =>
    obtain ⟨low, -, hletters, hlow⟩ :=
      lowerAfter_cons_of_isLetter (h c List.mem_cons_self) before cs
    rw [hlow, List.forall_mem_append]
    exact ⟨hletters, ih fun d hd ↦ h d (List.mem_cons_of_mem _ hd)⟩

theorem lowerAfter_ne_nil {before cs : List Char} (h : cs ≠ []) : lowerAfter before cs ≠ [] := by
  cases cs with
  | nil => exact absurd rfl h
  | cons c cs =>
    rw [lowerAfter]
    intro hnil
    have hlowered := (List.append_eq_nil_iff.1 hnil).1
    split_ifs at hlowered
    · exact lowerChar_ne_nil c hlowered

theorem lowerChars_ne_nil {cs : List Char} (h : cs ≠ []) : lowerChars cs ≠ [] :=
  lowerAfter_ne_nil h

/-- A single character in lower case, other than a sigma, comes from a single character, whatever
stands in front of that. -/
theorem lowerAfter_eq_singleton_iff {before cs : List Char} {x : Char}
    (hx : x ≠ 'ς' ∧ x ≠ 'σ') :
    lowerAfter before cs = [x] ↔ ∃ c, cs = [c] ∧ c ≠ 'Σ' ∧ lowerChar c = [x] := by
  constructor
  · intro h
    cases cs with
    | nil => simp [lowerAfter] at h
    | cons c cs =>
      rw [lowerAfter] at h
      by_cases hsigma : c = 'Σ'
      · simp only [hsigma, if_true, List.singleton_append, List.cons.injEq] at h
        split_ifs at h
        · exact absurd h.1.symm hx.1
        · exact absurd h.1.symm hx.2
      · simp only [if_neg hsigma] at h
        rcases List.append_eq_singleton_iff.1 h with ⟨hnil, -⟩ | ⟨hlow, hrest⟩
        · exact absurd hnil (lowerChar_ne_nil c)
        · have hcs : cs = [] := by
            by_contra hne
            exact lowerAfter_ne_nil hne hrest
          exact ⟨c, by rw [hcs], hsigma, hlow⟩
  · rintro ⟨c, rfl, hsigma, hlow⟩
    simp [lowerAfter, hsigma, hlow]

end ArtifactIndex.Text
