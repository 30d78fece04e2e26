import ArtifactIndex.Proofs.Range.Cut

/-!
# Intersections of ranges

The intersection of two ranges is made of the common parts of all pairs of their intervals, in the
order of their lower ends. `inter_exact` says that it is the intersection: a version is in it when
it is in both ranges, and a pair without a common part has no version in common. The component
order only has to be a total preorder on the version asked for and on the ends of both ranges, and
the ranges may be any lists of intervals.

The proof reads every interval as a pair of cuts: a common part has the greater lower and the
smaller upper cut, and a slot lies between these when it lies between both pairs.
-/

set_option autoImplicit false
set_option relaxedAutoImplicit false

namespace ArtifactIndex

/-! ### Pairs of intervals -/

namespace Scale

variable {scale : Scale}

theorem mem_inter? {i j k : Interval} (hi : scale.Holds i) (hj : scale.Holds j)
    (h : i.inter? j = some k) {v : Version} (hv : v ∈ scale) : v ∈ k ↔ v ∈ i ∧ v ∈ j := by
  obtain ⟨hk, -, hlower, hupper⟩ := inter?_eq_some hi hj h
  rw [mem_iff_cut hk hv, mem_iff_cut hi hv, mem_iff_cut hj hv, hlower, hupper]
  omega

/-- A pair that is dropped has no version in common. -/
theorem not_mem_of_inter?_eq_none {i j : Interval} (hi : scale.Holds i) (hj : scale.Holds j)
    (h : i.inter? j = none) {v : Version} (hv : v ∈ scale) : ¬ (v ∈ i ∧ v ∈ j) := by
  have hcuts := (inter?_eq_none_iff_cut_le hi hj).1 h
  rw [mem_iff_cut hi hv, mem_iff_cut hj hv]
  omega

end Scale

/-! ### The product of two ranges -/

theorem Range.mem_intervals_inter {r s : Range} {k : Interval} :
    k ∈ (r.inter s).intervals ↔ ∃ i ∈ r.intervals, ∃ j ∈ s.intervals, i.inter? j = some k := by
  unfold Range.inter Range.sortByLower
  rw [mem_sortBy, List.mem_flatMap]
  simp only [List.mem_filterMap]

namespace Scale

variable {scale : Scale}

theorem mem_inter_iff {r s : Range} (hr : scale.Spans r) (hs : scale.Spans s) {v : Version}
    (hv : v ∈ scale) : v ∈ r.inter s ↔ v ∈ r ∧ v ∈ s := by
  constructor
  · intro hinter
    obtain ⟨k, hk, hvk⟩ := Range.mem_iff.1 hinter
    obtain ⟨i, hi, j, hj, hijk⟩ := Range.mem_intervals_inter.1 hk
    have hboth : v ∈ i ∧ v ∈ j := (mem_inter? (hr.holds hi) (hs.holds hj) hijk hv).1 hvk
    exact ⟨Range.mem_iff.2 ⟨i, hi, hboth.1⟩, Range.mem_iff.2 ⟨j, hj, hboth.2⟩⟩
  · rintro ⟨hvr, hvs⟩
    obtain ⟨i, hi, hvi⟩ := Range.mem_iff.1 hvr
    obtain ⟨j, hj, hvj⟩ := Range.mem_iff.1 hvs
    cases hijk : i.inter? j with
    | none =>
      exact absurd ⟨hvi, hvj⟩ (not_mem_of_inter?_eq_none (hr.holds hi) (hs.holds hj) hijk hv)
    | some k =>
      have hvk : v ∈ k := (mem_inter? (hr.holds hi) (hs.holds hj) hijk hv).2 ⟨hvi, hvj⟩
      exact Range.mem_iff.2 ⟨k, Range.mem_intervals_inter.2 ⟨i, hi, j, hj, hijk⟩, hvk⟩

end Scale

namespace Range

/-- The intersection holds exactly the versions of both ranges, and the pairs of intervals that
have no common part have no version in common. -/
theorem inter_exact (r s : Range) (v : Version)
    (h : TotalPreorderOn Version.cmp (· ∈ v :: (r.bounds ++ s.bounds))) :
    (v ∈ r.inter s ↔ v ∈ r ∧ v ∈ s) ∧
      ∀ i ∈ r.intervals, ∀ j ∈ s.intervals, i.inter? j = none → ¬ (v ∈ i ∧ v ∈ j) := by
  have hv : v ∈ Scale.mk _ h := List.mem_cons_self
  have hr : (Scale.mk _ h).Spans r := fun w hw ↦
    List.mem_cons_of_mem _ (List.mem_append_left _ hw)
  have hs : (Scale.mk _ h).Spans s := fun w hw ↦
    List.mem_cons_of_mem _ (List.mem_append_right _ hw)
  refine ⟨Scale.mem_inter_iff hr hs hv, ?_⟩
  intro i hi j hj hnone
  exact Scale.not_mem_of_inter?_eq_none (hr.holds hi) (hs.holds hj) hnone hv

/-- The end at which the two ranges below touch. -/
def two : Version :=
  ⟨"2", by decide +kernel⟩

/-- From `1` up to `2`, and again from `3` on. -/
def oneOrThree : Range :=
  ⟨[⟨some ⟨"1", by decide +kernel⟩, true, some two, false⟩,
    ⟨some ⟨"3", by decide +kernel⟩, true, none, false⟩]⟩

/-- From `2` to `3.0`, both included. -/
def twoToThree : Range :=
  ⟨[⟨some two, true, some ⟨"3.0", by decide +kernel⟩, true⟩]⟩

/-- One pair touches at `2` and has nothing in common, the other has `3` under every spelling. -/
theorem inter_exact_oneOrThree :
    TotalPreorderOn Version.cmp
        (· ∈ ⟨"3-ga", by decide +kernel⟩ :: (oneOrThree.bounds ++ twoToThree.bounds)) ∧
      ⟨"3-ga", by decide +kernel⟩ ∈ oneOrThree.inter twoToThree := by
  have h : TotalPreorderOn Version.cmp
      (· ∈ ⟨"3-ga", by decide +kernel⟩ :: (oneOrThree.bounds ++ twoToThree.bounds)) := by
    decide +kernel
  exact ⟨h, (inter_exact oneOrThree twoToThree _ h).1.2 (by decide +kernel)⟩

end Range
end ArtifactIndex
