import ArtifactIndex.Proofs.Range.Complement

/-!
# The invariant of ranges

What every range has in common, however it was built: its intervals leave room for a version as far
as their ends can tell, and each of them ends before all later ones start, so an end can be missing
only at the outside of the range. `Range.WellFormed` spells this out in terms of the ends. The tests
that are made while ranges are read and calculated with decide these conditions
(`Interval.isOrdered_iff_hasRoom`, `Interval.precedes_iff_endsBefore`), and a range that was built
meets them (`builtFrom_wellFormed`).
-/

set_option autoImplicit false
set_option relaxedAutoImplicit false

namespace ArtifactIndex

namespace Range

/-- All intervals have room, only the first may be without a lower end and only the last without an
upper end, and each ends before every later one. -/
structure WellFormed (r : Range) : Prop where
  room : ∀ i ∈ r.intervals, i.HasRoom
  lower : ∀ n (hn : n < r.intervals.length), r.intervals[n].lower = none → n = 0
  upper : ∀ n (hn : n < r.intervals.length),
    r.intervals[n].upper = none → n + 1 = r.intervals.length
  apart : ∀ m n (hm : m < r.intervals.length) (hn : n < r.intervals.length), m < n →
    r.intervals[m].EndsBefore r.intervals[n]

/-- A missing end inside the range would leave a neighbour without a place to end or to start. -/
theorem Separated.wellFormed {r : Range} (h : r.Separated) : r.WellFormed := by
  have hapart : ∀ m n (hm : m < r.intervals.length) (hn : n < r.intervals.length), m < n →
      r.intervals[m].EndsBefore r.intervals[n] := fun m n hm hn hlt ↦
    Interval.precedes_iff_endsBefore.1 (List.pairwise_iff_getElem.1 h.ascending m n hm hn hlt)
  refine ⟨fun i hi ↦ Interval.isOrdered_iff_hasRoom.1 (h.ordered i hi), ?_, ?_, hapart⟩
  · intro n hn hlower
    by_contra hne
    obtain ⟨-, l, -, hl, -⟩ := hapart 0 n (by omega) hn (by omega)
    exact Option.some_ne_none l (hl.symm.trans hlower)
  · intro n hn hupper
    by_contra hne
    obtain ⟨u, -, hu, -, -⟩ := hapart n (n + 1) hn (by omega) (Nat.lt_succ_self n)
    exact Option.some_ne_none u (hu.symm.trans hupper)

/-- However a range was built, it is well-formed, provided the versions at the ends of the ranges
that went in, together with `0`, are totally preordered. -/
theorem builtFrom_wellFormed {versions : List Version} {r : Range} (hbuilt : BuiltFrom versions r)
    (htotal : TotalPreorderOn Version.cmp (· ∈ .zero :: versions)) : r.WellFormed := by
  have hzero : .zero ∈ Scale.mk _ htotal := List.mem_cons_self
  obtain ⟨-, hsep⟩ := Scale.separated_of_builtFrom hbuilt hzero fun v hv ↦
    List.mem_cons_of_mem _ hv
  exact hsep.wellFormed

/-- All versions but `1.1` and those above `2` up to `3.5`. -/
def threeParts : Range :=
  ⟨[⟨none, false, some ⟨"1.1", by decide +kernel⟩, false⟩,
    ⟨some ⟨"1.1.0", by decide +kernel⟩, false, some two, true⟩,
    ⟨some ⟨"3.5", by decide +kernel⟩, false, none, false⟩]⟩

/-- An intersection with neighbours that leave out one version, `1.1`, and without an upper end. -/
theorem builtFrom_wellFormed_threeParts :
    BuiltFrom (threeParts.bounds ++ oneOrThree.bounds) (threeParts.inter oneOrThree) ∧
      TotalPreorderOn Version.cmp
        (· ∈ .zero :: (threeParts.bounds ++ oneOrThree.bounds)) ∧
      (threeParts.inter oneOrThree).WellFormed := by
  have hthree : Range.parse "(,1.1),(1.1.0,2],(3.5,)" = .ok threeParts := by decide +kernel
  have hone : Range.parse "[1,2),[3,)" = .ok oneOrThree := by decide +kernel
  have hbuilt : BuiltFrom (threeParts.bounds ++ oneOrThree.bounds)
      (threeParts.inter oneOrThree) := .inter (.parse hthree) (.parse hone)
  have htotal : TotalPreorderOn Version.cmp
      (· ∈ .zero :: (threeParts.bounds ++ oneOrThree.bounds)) := by
    decide +kernel
  exact ⟨hbuilt, htotal, builtFrom_wellFormed hbuilt htotal⟩

end Range
end ArtifactIndex
