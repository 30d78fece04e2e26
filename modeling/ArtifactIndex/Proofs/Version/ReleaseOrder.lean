import ArtifactIndex.Proofs.Version.Release
import ArtifactIndex.Sorting

/-!
# The order of release-style versions

Versions of the shape `N(.N)*[-Q[M]]` are ordered as a reader expects: first by their numbers, with
zeros added to the shorter row, then by what the qualifier is called, then by the number behind it
(`ReleaseLiteral.release_order`). The comparison of components works on rows without the zeros at
their end, and cuts a shorter row against padding; both come to the same (`compareNumbers_eq`,
`Components.cmp_row`).

The key `Precedence` is ordered lexicographically, so on these versions the component order is a
total preorder, which it is not on all versions.
-/

set_option autoImplicit false
set_option relaxedAutoImplicit false

namespace ArtifactIndex

open Components (dropZeros)

/-! ### Rows of numbers -/

/-- Lexicographic, after zeros have been added to the shorter row. -/
def compareNumbers (ms ns : List ℕ) : Ordering :=
  compare (ms.rightpad ns.length 0) (ns.rightpad ms.length 0)

theorem compareNumbers_cons (m n : ℕ) (ms ns : List ℕ) :
    compareNumbers (m :: ms) (n :: ns) = (compare m n).then (compareNumbers ms ns) := by
  simp [compareNumbers, List.rightpad, List.compare_cons_cons]

theorem compareNumbers_cons_nil (m : ℕ) (ms : List ℕ) :
    compareNumbers (m :: ms) [] = (compare m 0).then (compareNumbers ms []) := by
  simp [compareNumbers, List.rightpad, List.replicate_succ, List.compare_cons_cons]

theorem compareNumbers_nil_cons (n : ℕ) (ns : List ℕ) :
    compareNumbers [] (n :: ns) = (compare 0 n).then (compareNumbers [] ns) := by
  simp [compareNumbers, List.rightpad, List.replicate_succ, List.compare_cons_cons]

namespace Components

theorem compare_nil_dropZeros (n : ℕ) (ns : List ℕ) :
    compare [] (dropZeros (n :: ns)) = (compare 0 n).then (compare [] (dropZeros ns)) := by
  by_cases hnil : dropZeros (n :: ns) = []
  · obtain ⟨rfl, hns⟩ := dropZeros_cons_eq_nil_iff.1 hnil
    rw [hnil, hns]
    rfl
  · rw [dropZeros_cons_of_ne_nil hnil, List.compare_nil_cons]
    rcases Nat.eq_zero_or_pos n with rfl | hpos
    · have hns : dropZeros ns ≠ [] := fun hns ↦ hnil (dropZeros_cons_eq_nil_iff.2 ⟨rfl, hns⟩)
      obtain ⟨k, ks, hks⟩ := List.exists_cons_of_ne_nil hns
      rw [hks, List.compare_nil_cons]
      rfl
    · rw [Nat.compare_eq_lt.2 hpos]
      rfl

theorem compare_dropZeros_nil (m : ℕ) (ms : List ℕ) :
    compare (dropZeros (m :: ms)) [] = (compare m 0).then (compare (dropZeros ms) []) := by
  rw [Std.OrientedOrd.eq_swap, compare_nil_dropZeros, Ordering.swap_then,
    ← Std.OrientedOrd.eq_swap, ← Std.OrientedOrd.eq_swap]

/-- Rows without zeros at the end are compared position by position, as padded rows are. -/
theorem compare_dropZeros_cons (m n : ℕ) (ms ns : List ℕ) :
    compare (dropZeros (m :: ms)) (dropZeros (n :: ns)) =
      (compare m n).then (compare (dropZeros ms) (dropZeros ns)) := by
  by_cases hm : dropZeros (m :: ms) = []
  · obtain ⟨rfl, hms⟩ := dropZeros_cons_eq_nil_iff.1 hm
    rw [hm, hms, compare_nil_dropZeros]
  · by_cases hn : dropZeros (n :: ns) = []
    · obtain ⟨rfl, hns⟩ := dropZeros_cons_eq_nil_iff.1 hn
      rw [hn, hns, compare_dropZeros_nil]
    · rw [dropZeros_cons_of_ne_nil hm, dropZeros_cons_of_ne_nil hn, List.compare_cons_cons]

theorem compareNumbers_eq (ms ns : List ℕ) :
    compareNumbers ms ns = compare (dropZeros ms) (dropZeros ns) := by
  induction ms generalizing ns with
  | nil =>
    induction ns with
    | nil => rfl
    | cons n ns ih => rw [compareNumbers_nil_cons, ih, dropZeros, compare_nil_dropZeros]
  | cons m ms ih =>
    cases ns with
    | nil => rw [compareNumbers_cons_nil, ih, dropZeros, compare_dropZeros_nil]
    | cons n ns => rw [compareNumbers_cons, ih, compare_dropZeros_cons]

/-! ### Rows of components -/

/-- Components that may stand behind a row: none, or a sub list that a qualifier starts. -/
def IsTail (t : Components) : Prop :=
  t = done ∨ ∃ p rest, t = sublist (item (.qualifier p) rest)

theorem isTail_qualified (p : Qualifier) (n : ℕ) : IsTail (qualified p n) := by
  unfold qualified
  split
  · exact .inl rfl
  · exact .inr ⟨p, numbered n, rfl⟩

theorem cmpEnd_row {ns : List ℕ} (h : dropZeros ns ≠ []) (t : Components) :
    (row (dropZeros ns) t).cmpEnd = .gt := by
  induction ns with
  | nil => exact absurd rfl h
  | cons n ns ih =>
    rw [dropZeros_cons_of_ne_nil h]
    change (compare n 0).then (row (dropZeros ns) t).cmpEnd = .gt
    rcases Nat.eq_zero_or_pos n with rfl | hpos
    · rw [ih fun hns ↦ h (dropZeros_cons_eq_nil_iff.2 ⟨rfl, hns⟩)]
      rfl
    · rw [Nat.compare_eq_gt.2 hpos]
      rfl

/-- A row without zeros at its end exceeds whatever else may stand in its place. -/
theorem cmp_row_tail {u : Components} (hu : IsTail u) (t : Components) (ms : List ℕ) :
    (row (dropZeros ms) t).cmp u = (compare (dropZeros ms) []).then (t.cmp u) := by
  by_cases hnil : dropZeros ms = []
  · rw [hnil]
    rfl
  · obtain ⟨k, ks, hks⟩ := List.exists_cons_of_ne_nil hnil
    have hgt : (row (dropZeros ms) t).cmp u = .gt := by
      rcases hu with rfl | ⟨p, rest, rfl⟩
      · rw [cmp_done, cmpEnd_row hnil]
      · rw [hks]
        rfl
    rw [hgt, hks, List.compare_cons_nil]
    rfl

theorem cmp_tail_row {t : Components} (ht : IsTail t) (u : Components) (ns : List ℕ) :
    t.cmp (row (dropZeros ns) u) = (compare [] (dropZeros ns)).then (t.cmp u) := by
  rw [← cmp_swap, cmp_row_tail ht, Ordering.swap_then, cmp_swap, ← Std.OrientedOrd.eq_swap]

/-- What stands behind two rows decides where the rows are equal. -/
theorem cmp_row {t u : Components} (ht : IsTail t) (hu : IsTail u) (ms ns : List ℕ) :
    (row (dropZeros ms) t).cmp (row (dropZeros ns) u) =
      (compare (dropZeros ms) (dropZeros ns)).then (t.cmp u) := by
  induction ms generalizing ns with
  | nil => exact cmp_tail_row ht u ns
  | cons m ms ih =>
    by_cases hm : dropZeros (m :: ms) = []
    · rw [hm]
      exact cmp_tail_row ht u ns
    · cases ns with
      | nil => exact cmp_row_tail hu t (m :: ms)
      | cons n ns =>
        by_cases hn : dropZeros (n :: ns) = []
        · rw [hn]
          exact cmp_row_tail hu t (m :: ms)
        · rw [dropZeros_cons_of_ne_nil hm, dropZeros_cons_of_ne_nil hn, List.compare_cons_cons,
            Ordering.then_assoc, ← ih]
          rfl

/-! ### Qualifiers behind a row -/

theorem cmp_numbered (m n : ℕ) : (numbered m).cmp (numbered n) = compare m n := by
  unfold numbered
  split
  case isTrue hm =>
    subst hm
    split
    case isTrue hn => simp [hn, cmp, cmpEnd]
    case isFalse => exact Nat.compare_swap n 0
  case isFalse hm =>
    split
    case isTrue hn => simp [hn, cmp, cmpFirstPadding, Component.cmpPadding]
    case isFalse => simp [cmp, Component.cmp, cmpEnd]

/-- Behind equal numbers the qualifiers decide, and then the numbers behind them. -/
theorem cmp_qualified {p q : Qualifier} {m n : ℕ}
    (hp : p.rank = Qualifier.release.rank → m = 0) (hq : q.rank = Qualifier.release.rank → n = 0) :
    (qualified p m).cmp (qualified q n) = (p.cmp q).then (compare m n) := by
  unfold qualified
  by_cases hprelease : p.rank = Qualifier.release.rank
  · rw [if_pos hprelease]
    by_cases hqrelease : q.rank = Qualifier.release.rank
    · rw [if_pos hqrelease, hp hprelease, hq hqrelease,
        Qualifier.eq_release_of_rank_eq hprelease, Qualifier.eq_release_of_rank_eq hqrelease]
      rfl
    · have hne : p.rank ≠ q.rank := fun heq ↦ hqrelease (heq ▸ hprelease)
      rw [if_neg hqrelease, Qualifier.cmp_then_of_rank_ne hne, hprelease]
      exact Nat.compare_swap q.rank Qualifier.release.rank
  · rw [if_neg hprelease]
    by_cases hqrelease : q.rank = Qualifier.release.rank
    · have hne : p.rank ≠ q.rank := fun heq ↦ hprelease (heq ▸ hqrelease)
      rw [if_pos hqrelease, Qualifier.cmp_then_of_rank_ne hne, hqrelease]
      rfl
    · rw [if_neg hqrelease]
      change (p.cmp q).then ((numbered m).cmp (numbered n)) = _
      rw [cmp_numbered]

end Components

/-! ### The order -/

/-- What the place of a release-style version depends on. -/
structure Precedence where
  numbers : List ℕ
  name : String
  number : ℕ
  deriving DecidableEq

namespace Precedence

/-- Lexicographic in the numbers, the name of the qualifier and the number behind it. -/
def cmp (k l : Precedence) : Ordering :=
  (compareNumbers k.numbers l.numbers).then <|
    (compareNames k.name l.name).then (compare k.number l.number)

theorem cmp_eq_compareLex : cmp = compareLex (compareOn fun k ↦ dropZeros k.numbers)
    (compareLex (compareLex (compareOn fun k ↦ place k.name) (compareOn name))
      (compareOn number)) := by
  funext k l
  rw [cmp, Components.compareNumbers_eq]
  rfl

instance : Std.TransCmp cmp :=
  cmp_eq_compareLex ▸ inferInstance

end Precedence

namespace ReleaseLiteral

/-- A version without a qualifier is a release. -/
def precedence (s : ReleaseLiteral) : Precedence where
  numbers := s.numbers
  name := s.suffix.elim "release" Suffix.meaning
  number := s.number

theorem proper_qualifier (s : ReleaseLiteral) : s.qualifier.Proper := by
  unfold qualifier
  cases s.suffix with
  | none => trivial
  | some q => exact Qualifier.proper_ofText _ _

theorem name_qualifier (s : ReleaseLiteral) : s.qualifier.name = s.precedence.name := by
  unfold qualifier precedence
  cases s.suffix with
  | none => rfl
  | some q => exact q.name_qualifier

theorem number_eq_zero {s : ReleaseLiteral}
    (h : s.qualifier.rank = Qualifier.release.rank) : s.number = 0 := by
  unfold qualifier at h
  unfold number
  cases hsuffix : s.suffix with
  | none => rfl
  | some q =>
    rw [hsuffix] at h
    exact s.unnumbered q hsuffix (Suffix.meaning_of_rank_eq h)

theorem cmp_version (s t : ReleaseLiteral) :
    s.version.cmp t.version = s.precedence.cmp t.precedence := by
  have hs : (Components.qualified s.qualifier s.number).IsTail := Components.isTail_qualified _ _
  have ht : (Components.qualified t.qualifier t.number).IsTail := Components.isTail_qualified _ _
  calc s.version.cmp t.version
      = (compareNumbers s.numbers t.numbers).then
          ((Components.qualified s.qualifier s.number).cmp (.qualified t.qualifier t.number)) := by
        rw [Version.cmp, components_version, components_version, Components.cmp_row hs ht,
          Components.compareNumbers_eq]
    _ = (compareNumbers s.numbers t.numbers).then
          ((s.qualifier.cmp t.qualifier).then (compare s.number t.number)) := by
        rw [Components.cmp_qualified number_eq_zero number_eq_zero]
    _ = s.precedence.cmp t.precedence := by
        rw [Qualifier.cmp_eq_compareNames s.proper_qualifier t.proper_qualifier, name_qualifier,
          name_qualifier]
        rfl

/-- Release-style literals are versions, which are ordered by their numbers, what their qualifiers
are called and the numbers behind those. On them the order is a total preorder. -/
theorem release_order :
    (∀ s : ReleaseLiteral, Version.parse s.literal = .ok s.version) ∧
      (∀ s t : ReleaseLiteral, s.version.cmp t.version = s.precedence.cmp t.precedence) ∧
      TotalPreorderOn Version.cmp fun v ↦ ∃ s : ReleaseLiteral, v = s.version := by
  refine ⟨fun s ↦ s.version.parse_literal, cmp_version, ?_, ?_⟩
  · rintro v w ⟨s, rfl⟩ ⟨t, rfl⟩
    rw [cmp_version, cmp_version]
    exact Std.OrientedCmp.eq_swap.symm
  · rintro u v w ⟨r, rfl⟩ ⟨s, rfl⟩ ⟨t, rfl⟩
    rw [cmp_version, cmp_version, cmp_version]
    exact Std.TransCmp.isLE_trans

example : ∃ s : ReleaseLiteral,
    s.literal = "1.07-CR2" ∧ s.precedence = ⟨[1, 7], "rc", 2⟩ :=
  ⟨⟨[⟨['1'], by decide, by simp⟩, ⟨['0', '7'], by decide, by simp⟩],
      some ⟨['C', 'R'], some ⟨['2'], by decide, by simp⟩, by decide,
        by simp [Version.admits, Text.isBlank, Text.isLetter]⟩,
      by decide, by decide +kernel⟩, by decide +kernel, by decide +kernel⟩

end ReleaseLiteral
end ArtifactIndex
