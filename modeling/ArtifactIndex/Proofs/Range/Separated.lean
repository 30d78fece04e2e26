import ArtifactIndex.Proofs.Range.Intersection
import ArtifactIndex.Proofs.Range.Reading

/-!
# Separated ranges

A range is `Separated` when the ends of each interval leave room and each interval precedes all
later ones. No operation checks this, but all of them keep it: what the reader accepts is a chain
(`parse_isChain`), which on a scale is ascending throughout (`separated_of_isChain`); sorting by
lower ends keeps an ascending list ascending (`pairwise_sortByLower`), and so the common parts of
two separated ranges are separated again (`separated_inter`).
-/

set_option autoImplicit false
set_option relaxedAutoImplicit false

namespace ArtifactIndex

/-- The intervals leave room and are in ascending order, without a version in two of them. -/
structure Range.Separated (r : Range) : Prop where
  ordered : ∀ i ∈ r.intervals, i.isOrdered
  ascending : r.intervals.Pairwise fun i j ↦ i.precedes j

/-! ### Ascending lists on a scale -/

namespace Scale

variable {scale : Scale}

theorem precedes_of_cut_le {i j k l : Interval} (hi : scale.Holds i) (hj : scale.Holds j)
    (hk : scale.Holds k) (hl : scale.Holds l) (hij : i.precedes j)
    (hupper : scale.upperCut k ≤ scale.upperCut i) (hlower : scale.lowerCut j ≤ scale.lowerCut l) :
    k.precedes l := by
  rw [precedes_iff hi hj] at hij
  rw [precedes_iff hk hl]
  omega

/-- A chain of intervals that leave room is ascending throughout. -/
theorem pairwise_of_isChain {is : List Interval} (hholds : ∀ i ∈ is, scale.Holds i)
    (hordered : ∀ i ∈ is, i.isOrdered) (hchain : is.IsChain fun i j ↦ i.precedes j) :
    is.Pairwise fun i j ↦ i.precedes j := by
  induction is with
  | nil => exact .nil
  | cons i rest ih =>
    have hi : scale.Holds i := hholds i List.mem_cons_self
    have hpairwise := ih (fun j hj ↦ hholds j (List.mem_cons_of_mem _ hj))
      (fun j hj ↦ hordered j (List.mem_cons_of_mem _ hj)) hchain.tail
    refine hpairwise.cons ?_
    intro k hk
    cases rest with
    | nil => exact absurd hk List.not_mem_nil
    | cons j rest =>
      have hij : i.precedes j := (List.isChain_cons_cons.1 hchain).1
      rcases List.mem_cons.1 hk with rfl | hkrest
      · exact hij
      · -- `j` lies between `i` and `k`, and has room
        have hj : scale.Holds j := hholds j (by simp)
        have hjroom := (isOrdered_iff hj).1 (hordered j (by simp))
        have hkholds : scale.Holds k := hholds k (List.mem_cons_of_mem _ hk)
        have hjk := (precedes_iff hj hkholds).1 (List.rel_of_pairwise_cons hpairwise hkrest)
        exact precedes_of_cut_le hi hj hi hkholds hij (Nat.le_refl _) (by omega)

theorem separated_of_isChain {r : Range} (hr : scale.Spans r)
    (hordered : ∀ i ∈ r.intervals, i.isOrdered)
    (hchain : r.intervals.IsChain fun i j ↦ i.precedes j) : r.Separated where
  ordered := hordered
  ascending := pairwise_of_isChain (fun _ hi ↦ hr.holds hi) hordered hchain

/-- Two intervals that precede each other would leave no room, so the order of the lower ends is
the order in which intervals precede. -/
theorem pairwise_sortByLower {is : List Interval} (hholds : ∀ i ∈ is, scale.Holds i)
    (hordered : ∀ i ∈ is, i.isOrdered) (hascending : is.Pairwise fun i j ↦ i.precedes j) :
    (Range.sortByLower is).Pairwise fun i j ↦ i.precedes j := by
  have heither : (Range.sortByLower is).Pairwise fun i j ↦ i.precedes j ∨ j.precedes i :=
    (sortBy_perm Interval.cmpLower is).symm.pairwise (hascending.imp .inl) Or.symm
  have hsorted := pairwise_sortBy cmpLower_total hholds
  refine (heither.and hsorted).imp_of_mem ?_
  rintro i j hi hj ⟨hij | hji, hle⟩
  · exact hij
  · have hiholds : scale.Holds i := hholds i (mem_sortBy.1 hi)
    have hjholds : scale.Holds j := hholds j (mem_sortBy.1 hj)
    rw [cmpLower_eq hiholds hjholds, Nat.isLE_compare] at hle
    have hjroom := (isOrdered_iff hjholds).1 (hordered j (mem_sortBy.1 hj))
    have hcuts := (precedes_iff hjholds hiholds).1 hji
    omega

/-! ### Intersections -/

theorem spans_inter {r s : Range} (hr : scale.Spans r) (hs : scale.Spans s) :
    scale.Spans (r.inter s) := by
  apply spans_of_holds
  intro k hk
  obtain ⟨i, hi, j, hj, hijk⟩ := Range.mem_intervals_inter.1 hk
  exact (inter?_eq_some (hr.holds hi) (hs.holds hj) hijk).1

/-- The common parts, row by row, are ascending: within a row by the second range, and from one row
to the next by the first. -/
theorem pairwise_common_parts {r s : Range} (hr : scale.Spans r) (hs : scale.Spans s)
    (hrsep : r.Separated) (hssep : s.Separated) :
    (r.intervals.flatMap fun i ↦ s.intervals.filterMap fun j ↦ i.inter? j).Pairwise
      fun i j ↦ i.precedes j := by
  rw [List.pairwise_flatMap]
  constructor
  · intro i hi
    rw [List.pairwise_filterMap]
    refine hssep.ascending.imp_of_mem ?_
    intro j j' hj hj' hjj' k hk k' hk'
    obtain ⟨hkholds, -, -, hupper⟩ := inter?_eq_some (hr.holds hi) (hs.holds hj) hk
    obtain ⟨hkholds', -, hlower, -⟩ := inter?_eq_some (hr.holds hi) (hs.holds hj') hk'
    exact precedes_of_cut_le (hs.holds hj) (hs.holds hj') hkholds hkholds' hjj' (by omega)
      (by omega)
  · refine hrsep.ascending.imp_of_mem ?_
    intro i i' hi hi' hii' k hk k' hk'
    obtain ⟨j, hj, hijk⟩ := List.mem_filterMap.1 hk
    obtain ⟨j', hj', hijk'⟩ := List.mem_filterMap.1 hk'
    obtain ⟨hkholds, -, -, hupper⟩ := inter?_eq_some (hr.holds hi) (hs.holds hj) hijk
    obtain ⟨hkholds', -, hlower, -⟩ := inter?_eq_some (hr.holds hi') (hs.holds hj') hijk'
    exact precedes_of_cut_le (hr.holds hi) (hr.holds hi') hkholds hkholds' hii' (by omega)
      (by omega)

theorem separated_inter {r s : Range} (hr : scale.Spans r) (hs : scale.Spans s)
    (hrsep : r.Separated) (hssep : s.Separated) : (r.inter s).Separated := by
  have hordered : ∀ k ∈ (r.inter s).intervals, k.isOrdered := by
    intro k hk
    obtain ⟨i, hi, j, hj, hijk⟩ := Range.mem_intervals_inter.1 hk
    exact (inter?_eq_some (hr.holds hi) (hs.holds hj) hijk).2.1
  have hholds : ∀ k ∈ (r.inter s).intervals, scale.Holds k := fun k hk ↦
    (spans_inter hr hs).holds hk
  refine ⟨hordered, ?_⟩
  exact pairwise_sortByLower (fun k hk ↦ hholds k (mem_sortBy.2 hk))
    (fun k hk ↦ hordered k (mem_sortBy.2 hk)) (pairwise_common_parts hr hs hrsep hssep)

end Scale
end ArtifactIndex
