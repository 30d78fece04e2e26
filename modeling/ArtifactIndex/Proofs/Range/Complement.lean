import ArtifactIndex.Proofs.Range.Gaps

/-!
# Complements of ranges

Ranges come from texts, from `everything` and `nothing`, and from intersections and complements of
ranges; `BuiltFrom` lists these ways together with the versions at the ends of all ranges used.
Where the component order is a total preorder on those versions and `0`, a range that was built is
separated, and its ends are among them (`separated_of_builtFrom`).

The complement of such a range is negation from `0` upwards, and it is canonical:
`complement_exact` says that a version at or above `0` is in the complement when it is not in the
range, that the complement always has an interval, and that it is `nothing` or a list of maximal
gaps, as `Canonical` spells out.
-/

set_option autoImplicit false
set_option relaxedAutoImplicit false

namespace ArtifactIndex

/-- The ways to come by a range, with the versions at the ends of the ranges it was built from. -/
inductive Range.BuiltFrom : List Version → Range → Prop where
  | parse {text : String} {r : Range} (h : Range.parse text = .ok r) : BuiltFrom r.bounds r
  | everything : BuiltFrom Range.everything.bounds Range.everything
  | nothing : BuiltFrom Range.nothing.bounds Range.nothing
  | inter {versions versions' : List Version} {r s : Range} (hr : BuiltFrom versions r)
    (hs : BuiltFrom versions' s) : BuiltFrom (versions ++ versions') (r.inter s)
  | complement {versions : List Version} {r : Range} (hr : BuiltFrom versions r) :
    BuiltFrom versions r.complement

/-- The intervals start at or above `0`, leave room and ascend, no version is in two of them, and no
interval meets the next one. -/
structure Range.Canonical (r : Range) : Prop where
  fromZero : ∀ i ∈ r.intervals, ∃ l, i.lower = some l ∧ l.cmp .zero ≠ .lt
  ordered : ∀ i ∈ r.intervals, i.isOrdered
  ascending : r.intervals.Pairwise fun i j ↦ i.cmpLower j = .lt
  disjoint : r.intervals.Pairwise fun i j ↦ i.precedes j
  apart : r.intervals.Pairwise fun i j ↦ ¬ i.meets j

namespace Scale

variable {scale : Scale}

/-! ### The gaps from zero on -/

theorem cmp_ne_lt_iff {v w : Version} (hv : v ∈ scale) (hw : w ∈ scale) :
    v.cmp w ≠ .lt ↔ scale.slot w ≤ scale.slot v := by
  rcases cmp_cases hv hw with ⟨hcmp, hslot⟩ | ⟨hcmp, hslot⟩ | ⟨hcmp, hslot⟩ <;>
    simp only [hcmp, ne_eq, reduceCtorEq, not_true_eq_false, not_false_eq_true, true_iff,
      false_iff] <;> omega

/-- The sweep from `0` over the sorted intervals of a separated range finds their gaps. -/
theorem gapsFrom_zero {r : Range} (hzero : .zero ∈ scale) (hr : scale.Spans r)
    (hsep : r.Separated) : scale.GapsFrom (scale.slot .zero) (Range.sortByLower r.intervals)
      (Range.gapsFrom .zero false (Range.sortByLower r.intervals)) := by
  have hholds : ∀ i ∈ Range.sortByLower r.intervals, scale.Holds i := fun i hi ↦
    hr.holds (mem_sortBy.1 hi)
  have hordered : ∀ i ∈ Range.sortByLower r.intervals, i.isOrdered := fun i hi ↦
    hsep.ordered i (mem_sortBy.1 hi)
  have hascending := pairwise_sortByLower (fun i hi ↦ hr.holds hi) hsep.ordered hsep.ascending
  exact gapsFrom_of_ascending .zero false hzero hholds hordered hascending (by simp)

theorem complement_cases (r : Range) :
    (Range.gapsFrom .zero false (Range.sortByLower r.intervals) = [] ∧
      r.complement = Range.nothing) ∨
    (Range.gapsFrom .zero false (Range.sortByLower r.intervals) ≠ [] ∧
      r.complement = ⟨Range.gapsFrom .zero false (Range.sortByLower r.intervals)⟩) := by
  unfold Range.complement
  cases Range.gapsFrom .zero false (Range.sortByLower r.intervals) with
  | nil => exact .inl ⟨rfl, rfl⟩
  | cons g gaps => exact .inr ⟨List.cons_ne_nil g gaps, rfl⟩

/-! ### What the gaps are -/

theorem separated_of_gapsFrom {cut : ℕ} {is gaps : List Interval}
    (h : scale.GapsFrom cut is gaps) : (Range.mk gaps).Separated where
  ordered g hg := (isOrdered_iff (h.holds g hg)).2 (h.ordered g hg)
  ascending := h.apart.imp_of_mem fun {g g'} hg hg' hlt ↦
    (precedes_iff (h.holds g hg) (h.holds g' hg')).2 (Nat.le_of_lt hlt)

theorem canonical_of_gapsFrom {is gaps : List Interval} (hzero : .zero ∈ scale)
    (h : scale.GapsFrom (scale.slot .zero) is gaps) : (Range.mk gaps).Canonical where
  fromZero g hg := by
    obtain ⟨l, hl⟩ := Option.isSome_iff_exists.1 (h.bounded g hg)
    have hlscale : l ∈ scale := (h.holds g hg).lower hl
    refine ⟨l, hl, ?_⟩
    rcases cmp_cases hlscale hzero with ⟨-, hslot⟩ | ⟨hcmp, -⟩ | ⟨hcmp, -⟩
    · -- the cut of an excluded end is one above its slot, and slots are two apart
      have habove := h.above g hg
      unfold lowerCut at habove
      simp only [hl] at habove
      split_ifs at habove <;> omega
    · simp [hcmp]
    · simp [hcmp]
  ordered := (separated_of_gapsFrom h).ordered
  ascending := h.apart.imp_of_mem fun {g g'} hg hg' hlt ↦ by
    rw [cmpLower_eq (h.holds g hg) (h.holds g' hg'), Nat.compare_eq_lt]
    exact Nat.lt_trans (h.ordered g hg) hlt
  disjoint := (separated_of_gapsFrom h).ascending
  apart := h.apart.imp_of_mem fun {g g'} hg hg' hlt ↦
    not_meets_of_cut_lt (h.holds g hg) (h.holds g' hg') hlt

theorem separated_nothing : Range.nothing.Separated where
  ordered i hi := by
    obtain rfl := List.mem_singleton.1 hi
    rfl
  ascending := List.pairwise_singleton _ _

theorem separated_everything : Range.everything.Separated where
  ordered i hi := by
    obtain rfl := List.mem_singleton.1 hi
    rfl
  ascending := List.pairwise_singleton _ _

theorem spans_nothing (hzero : .zero ∈ scale) : scale.Spans Range.nothing := by
  intro v hv
  obtain rfl : v = .zero := by simpa [Range.bounds, Range.nothing, Interval.bounds] using hv
  exact hzero

theorem spans_complement {r : Range} (hzero : .zero ∈ scale) (hr : scale.Spans r)
    (hsep : r.Separated) : scale.Spans r.complement := by
  have hgaps := gapsFrom_zero hzero hr hsep
  rcases complement_cases r with ⟨-, hcomplement⟩ | ⟨-, hcomplement⟩
  · rw [hcomplement]
    exact spans_nothing hzero
  · rw [hcomplement]
    exact spans_of_holds hgaps.holds

theorem separated_complement {r : Range} (hzero : .zero ∈ scale) (hr : scale.Spans r)
    (hsep : r.Separated) : r.complement.Separated := by
  have hgaps := gapsFrom_zero hzero hr hsep
  rcases complement_cases r with ⟨-, hcomplement⟩ | ⟨-, hcomplement⟩
  · rw [hcomplement]
    exact separated_nothing
  · rw [hcomplement]
    exact separated_of_gapsFrom hgaps

/-! ### Membership -/

/-- From `0` on the complement holds the places that no interval holds. -/
theorem within_complement_iff {r : Range} (hzero : .zero ∈ scale) (hr : scale.Spans r)
    (hsep : r.Separated) {place : ℕ} (hplace : scale.slot .zero ≤ place)
    (htop : place < scale.top) : (∃ g ∈ r.complement.intervals, scale.Within place g) ↔
      ∀ i ∈ r.intervals, ¬ scale.Within place i := by
  have hexact := (gapsFrom_zero hzero hr hsep).exact place hplace htop
  unfold Range.sortByLower at hexact
  simp only [mem_sortBy] at hexact
  rcases complement_cases r with ⟨hempty, hcomplement⟩ | ⟨-, hcomplement⟩
  · -- `nothing` ends before `0`, and no gaps means that the intervals leave nothing out
    have hnothing : ¬ ∃ g ∈ r.complement.intervals, scale.Within place g := by
      rw [hcomplement]
      rintro ⟨g, hg, -, hupper⟩
      obtain rfl := List.mem_singleton.1 hg
      exact Nat.not_lt.2 hplace hupper
    rw [← hexact, ← Range.sortByLower, hempty]
    exact iff_of_false hnothing (by simp)
  · rw [← hexact, hcomplement]
    rfl

theorem mem_iff_exists_within {r : Range} (hr : scale.Spans r) {v : Version} (hv : v ∈ scale) :
    v ∈ r ↔ ∃ i ∈ r.intervals, scale.Within (scale.slot v) i := by
  rw [Range.mem_iff]
  constructor
  · rintro ⟨i, hi, hvi⟩
    exact ⟨i, hi, (mem_iff_within (hr.holds hi) hv).1 hvi⟩
  · rintro ⟨i, hi, hwithin⟩
    exact ⟨i, hi, (mem_iff_within (hr.holds hi) hv).2 hwithin⟩

theorem mem_complement_iff {r : Range} (hzero : .zero ∈ scale) (hr : scale.Spans r)
    (hsep : r.Separated) {v : Version} (hv : v ∈ scale) (hvzero : v.cmp .zero ≠ .lt) :
    v ∈ r.complement ↔ v ∉ r := by
  have htop := scale.slot_lt_top v
  rw [mem_iff_exists_within (spans_complement hzero hr hsep) hv, mem_iff_exists_within hr hv,
    within_complement_iff hzero hr hsep ((cmp_ne_lt_iff hv hzero).1 hvzero) (by omega)]
  simp only [not_exists, not_and]

/-- An interval that precedes another has no version in common with it. -/
theorem not_mem_both_of_precedes {i j : Interval} (hi : scale.Holds i) (hj : scale.Holds j)
    (hij : i.precedes j) {v : Version} (hv : v ∈ scale) : ¬ (v ∈ i ∧ v ∈ j) := by
  rw [precedes_iff hi hj] at hij
  rw [mem_iff_cut hi hv, mem_iff_cut hj hv]
  omega

/-! ### Ranges that were built -/

theorem separated_of_builtFrom {versions : List Version} {r : Range}
    (h : Range.BuiltFrom versions r) (hzero : .zero ∈ scale)
    (hversions : ∀ v ∈ versions, v ∈ scale) : scale.Spans r ∧ r.Separated := by
  induction h with
  | parse hparse =>
    obtain ⟨hordered, hchain⟩ := Range.parse_isChain hparse
    exact ⟨hversions, separated_of_isChain hversions hordered hchain⟩
  | everything => exact ⟨hversions, separated_everything⟩
  | nothing => exact ⟨hversions, separated_nothing⟩
  | inter _ _ ihr ihs =>
    obtain ⟨hr, hrsep⟩ := ihr fun v hv ↦ hversions v (List.mem_append_left _ hv)
    obtain ⟨hs, hssep⟩ := ihs fun v hv ↦ hversions v (List.mem_append_right _ hv)
    exact ⟨spans_inter hr hs, separated_inter hr hs hrsep hssep⟩
  | complement _ ih =>
    obtain ⟨hr, hsep⟩ := ih hversions
    exact ⟨spans_complement hzero hr hsep, separated_complement hzero hr hsep⟩

end Scale

namespace Range

/-- On versions from `0` up the complement is negation. It is never without an interval, and it is
either `nothing` or the ascending list of the maximal gaps. -/
theorem complement_exact {versions : List Version} {r : Range} (hbuilt : BuiltFrom versions r)
    (htotal : TotalPreorderOn Version.cmp (· ∈ .zero :: versions)) :
    r.complement.intervals ≠ [] ∧ (r.complement = nothing ∨ r.complement.Canonical) ∧
      ∀ v : Version, TotalPreorderOn Version.cmp (· ∈ v :: .zero :: versions) →
        (v.cmp .zero ≠ .lt → (v ∈ r.complement ↔ v ∉ r)) ∧
          r.complement.intervals.Pairwise fun i j ↦ ¬ (v ∈ i ∧ v ∈ j) := by
  have hzero : .zero ∈ Scale.mk _ htotal := List.mem_cons_self
  obtain ⟨hr, hsep⟩ := Scale.separated_of_builtFrom hbuilt hzero
    fun v hv ↦ List.mem_cons_of_mem _ hv
  have hgaps := Scale.gapsFrom_zero hzero hr hsep
  refine ⟨?_, ?_, ?_⟩
  · rcases Scale.complement_cases r with ⟨-, hcomplement⟩ | ⟨hne, hcomplement⟩
    · rw [hcomplement]
      exact List.cons_ne_nil _ _
    · rw [hcomplement]
      exact hne
  · rcases Scale.complement_cases r with ⟨-, hcomplement⟩ | ⟨-, hcomplement⟩
    · exact .inl hcomplement
    · rw [hcomplement]
      exact .inr (Scale.canonical_of_gapsFrom hzero hgaps)
  · -- the same on the larger scale that holds `v`
    intro v hv
    have hvscale : v ∈ Scale.mk _ hv := List.mem_cons_self
    have hzero' : .zero ∈ Scale.mk _ hv := List.mem_cons_of_mem _ List.mem_cons_self
    obtain ⟨hr', -⟩ := Scale.separated_of_builtFrom hbuilt hzero'
      fun w hw ↦ List.mem_cons_of_mem _ (List.mem_cons_of_mem _ hw)
    refine ⟨fun hvzero ↦ Scale.mem_complement_iff hzero' hr' hsep hvscale hvzero, ?_⟩
    have hspans := Scale.spans_complement hzero' hr' hsep
    exact (Scale.separated_complement hzero hr hsep).ascending.imp_of_mem fun hi hj hij ↦
      Scale.not_mem_both_of_precedes (hspans.holds hi) (hspans.holds hj) hij hvscale

/-- A range that was read, intersected and complemented; `2` lies in the gap of the first two. -/
theorem complement_exact_oneOrThree :
    BuiltFrom (oneOrThree.bounds ++ everything.bounds) (oneOrThree.inter everything) ∧
      two ∈ (oneOrThree.inter everything).complement := by
  have hread : Range.parse "[1,2),[3,)" = .ok oneOrThree := by decide +kernel
  have hbuilt : BuiltFrom (oneOrThree.bounds ++ everything.bounds)
      (oneOrThree.inter everything) := .inter (.parse hread) .everything
  refine ⟨hbuilt, ?_⟩
  refine (((complement_exact hbuilt (by decide +kernel)).2.2 _ (by decide +kernel)).1 ?_).2 ?_
  · decide +kernel
  · decide +kernel

end Range
end ArtifactIndex
